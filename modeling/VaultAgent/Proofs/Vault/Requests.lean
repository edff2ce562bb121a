import VaultAgent.Proofs.Base64
import VaultAgent.Proofs.Json.Printer
import VaultAgent.Vault.Rpc

/-!
# What a vault is asked

A client of a vault makes calls one after the other, and each sends one line (`Sends`). A line is a
request as a whole: it holds no other line break, and what is read from it is the number of the call,
what is to be done and all that was given for it (`IsRequest`). So it is told by the line which call
was made, whatever the names and the challenge are, and no two calls with different numbers send
the same line.
-/

namespace VaultAgent.Rpc

variable {socket : Path} {before calls : List VaultCall} {call call' : VaultCall} {n n' : Nat}
  {line line' text : List UInt8} {j : Json} {fields fields' : List (String × Json)}

/-! ## Lines -/

/-- What comes of a call. -/
inductive Outcome
  | exported (answer : Answer String)
  | signed (answer : Answer (List UInt8))

def outcome (v : Vault) (before : List VaultCall) : VaultCall → Outcome
  | .exportKey name => .exported (v.exportKey before name)
  | .sign name group challenge => .signed (v.sign before name group challenge)

/-- A call that is made after others sends this line: it is all by which the call tells one vault at the
other end from another. -/
def Sends (socket : Path) (before : List VaultCall) (call : VaultCall) (line : List UInt8) : Prop :=
  ∀ contact contact' : List VaultCall → List UInt8 → Contact,
    contact before line = contact' before line →
      outcome (vault socket contact) before call = outcome (vault socket contact') before call

theorem sends_requestLine (socket : Path) (before : List VaultCall) (call : VaultCall) :
    Sends socket before call (requestLine (number (before.length + 1)) call) := by
  intro contact contact' hsame
  cases call with
  | exportKey name =>
    simp only [outcome, vault]
    rw [hsame]
  | sign name group challenge =>
    simp only [outcome, vault]
    rw [hsame]

/-- Silence and an empty line are answers of two kinds. -/
theorem outcome_silent_ne (socket : Path) (before : List VaultCall) (call : VaultCall) :
    outcome (vault socket fun _ _ => .answered []) before call ≠
      outcome (vault socket fun _ _ => .answered [10]) before call := by
  cases call with
  | exportKey name => exact nofun
  | sign name group challenge => exact nofun

theorem Sends.unique (h : Sends socket before call line) (h' : Sends socket before call line') :
    line = line' := by
  by_contra hne
  let mixed : List VaultCall → List UInt8 → Contact := fun _ sent =>
    if sent = line then .answered [] else .answered [10]
  have hsilent := h (fun _ _ => .answered []) mixed (if_pos rfl).symm
  have hempty := h' mixed (fun _ _ => .answered [10]) (if_neg (Ne.symm hne))
  exact outcome_silent_ne socket before call (hsilent.trans hempty)

/-! ## What a line says -/

/-- The value is an object with these members and no others. -/
def HasMembers (j : Json) (fields : List (String × Json)) : Prop :=
  ∃ members, j = .object members ∧ Json.keys? members = some fields

/-- The value says what is given for the call. -/
def Gives (j : Json) : VaultCall → Prop
  | .exportKey name => ∃ name', HasMembers j [("name", name')] ∧ name'.text? = some name
  | .sign name group challenge => ∃ name' group' content text,
    HasMembers j [("name", name'), ("group", group'), ("content", content)] ∧
      name'.text? = some name ∧ group'.text? = some group ∧ content.text? = some text ∧
      Base64.ofText text = .ok challenge

/-- The value says which call it is, and what the call is. -/
def Says (j : Json) (n : Nat) (call : VaultCall) : Prop :=
  ∃ id method' given,
    HasMembers j [("id", id), ("method", method'), ("params", .array [given])] ∧
      Json.word? id = some n ∧ method'.text? = some (method call) ∧ Gives given call

/-- The line is the request for a call, and nothing else. -/
def IsRequest (line : List UInt8) (n : Nat) (call : VaultCall) : Prop :=
  ∃ text j, line = text ++ [10] ∧ 10 ∉ text ∧ Json.ofBytes? text = some j ∧ Says j n call

theorem HasMembers.unique (h : HasMembers j fields) (h' : HasMembers j fields') :
    fields = fields' := by
  obtain ⟨members, rfl, hkeys⟩ := h
  obtain ⟨members', hj, hkeys'⟩ := h'
  cases hj
  exact Option.some.inj (hkeys.symm.trans hkeys')

theorem Gives.unique (h : Gives j call) (h' : Gives j call') : call = call' := by
  cases call with
  | exportKey name =>
    obtain ⟨name₁, hm, hname⟩ := h
    cases call' with
    | exportKey name' =>
      obtain ⟨name₂, hm', hname'⟩ := h'
      cases hm.unique hm'
      cases hname.symm.trans hname'
      rfl
    | sign name' group' challenge' =>
      obtain ⟨_, _, _, _, hm', -⟩ := h'
      cases hm.unique hm'
  | sign name group challenge =>
    obtain ⟨name₁, group₁, content₁, text₁, hm, hname, hgroup, htext, hcontent⟩ := h
    cases call' with
    | exportKey name' =>
      obtain ⟨_, hm', -⟩ := h'
      cases hm.unique hm'
    | sign name' group' challenge' =>
      obtain ⟨name₂, group₂, content₂, text₂, hm', hname', hgroup', htext', hcontent'⟩ := h'
      cases hm.unique hm'
      cases hname.symm.trans hname'
      cases hgroup.symm.trans hgroup'
      cases htext.symm.trans htext'
      cases hcontent.symm.trans hcontent'
      rfl

theorem Says.unique (h : Says j n call) (h' : Says j n' call') : n = n' ∧ call = call' := by
  obtain ⟨id, m, given, hm, hid, -, hgiven⟩ := h
  obtain ⟨id', m', given', hm', hid', -, hgiven'⟩ := h'
  cases hm.unique hm'
  exact ⟨Option.some.inj (hid.symm.trans hid'), hgiven.unique hgiven'⟩

/-- One line is the request for no more than one call. -/
theorem IsRequest.unique (h : IsRequest line n call) (h' : IsRequest line n' call') :
    n = n' ∧ call = call' := by
  obtain ⟨text, j, rfl, -, hj, hsays⟩ := h
  obtain ⟨text', j', hline, -, hj', hsays'⟩ := h'
  obtain rfl := List.append_cancel_right hline
  obtain rfl := Option.some.inj (hj.symm.trans hj')
  exact hsays.unique hsays'

/-! ## What is sent -/

theorem hasMembers_escape (fields : List (String × Json)) :
    HasMembers (.object (fields.map fun f => (Json.escape f.1, f.2))) fields :=
  ⟨_, rfl, Json.keys?_escape fields⟩

theorem gives_params (call : VaultCall) : Gives (params call) call := by
  cases call with
  | exportKey name => exact ⟨_, hasMembers_escape [("name", _)], Json.text?_ofText name⟩
  | sign name group challenge =>
    exact ⟨_, _, _, _, hasMembers_escape [("name", _), ("group", _), ("content", _)],
      Json.text?_ofText name, Json.text?_ofText group, Json.text?_ofText _,
      Base64.ofText_text challenge⟩

theorem says_request (hn : n < capacity 8) (call : VaultCall) : Says (request n call) n call :=
  ⟨_, _, _, hasMembers_escape [("id", _), ("method", _), ("params", .array [_])],
    Json.word?_toString hn, Json.text?_ofText _, gives_params call⟩

theorem wellFormed_params (call : VaultCall) : (params call).WellFormed := by
  cases call with
  | exportKey name =>
    exact .ofFields [("name", _)] (List.forall_mem_singleton.2 (.ofText name))
  | sign name group challenge =>
    refine .ofFields [("name", _), ("group", _), ("content", _)] ?_
    simp only [List.forall_mem_cons]
    exact ⟨.ofText name, .ofText group, .ofText _, List.forall_mem_nil _⟩

theorem wellFormed_request (n : Nat) (call : VaultCall) : (request n call).WellFormed := by
  refine .ofFields [("id", _), ("method", _), ("params", _)] ?_
  have hparams : Json.WellFormed (.array [params call]) :=
    .array (List.forall_mem_singleton.2 (wellFormed_params call))
  simp only [List.forall_mem_cons]
  exact ⟨.number (Json.isNumber_toString n), .ofText _, hparams, List.forall_mem_nil _⟩

theorem isRequest_requestLine (hn : n < capacity 8) (call : VaultCall) :
    IsRequest (requestLine n call) n call := by
  have hw := wellFormed_request n call
  refine ⟨Json.compact (request n call), request n call, rfl, ?_, Json.ofBytes?_compact hw,
    says_request hn call⟩
  intro hbreak
  exact Json.not_control_compact _ hw 10 hbreak (by decide)

example : requestLine 12 (.exportKey "a\n") = Json.ascii
    "\x7b\"id\":12,\"method\":\"Vault.ExportPublicData\",\"params\":[\x7b\"name\":\"a\\n\"\x7d]\x7d\n" := by
  decide +kernel

/-! ## Calls one after the other -/

/-- The lines that a client sends with calls, after it has made others. -/
inductive Sent (socket : Path) : List VaultCall → List VaultCall → List (List UInt8) → Prop
  | nil {before : List VaultCall} : Sent socket before [] []
  | cons {before calls : List VaultCall} {call : VaultCall} {line : List UInt8}
    {lines : List (List UInt8)} (h : Sends socket before call line)
    (hs : Sent socket (before ++ [call]) calls lines) :
    Sent socket before (call :: calls) (line :: lines)

variable {lines lines' : List (List UInt8)}

theorem exists_sent (socket : Path) (before calls : List VaultCall) :
    ∃ lines, Sent socket before calls lines := by
  induction calls generalizing before with
  | nil => exact ⟨[], .nil⟩
  | cons call calls ih =>
    obtain ⟨lines, hs⟩ := ih (before ++ [call])
    exact ⟨_, .cons (sends_requestLine socket before call) hs⟩

namespace Sent

theorem unique (h : Sent socket before calls lines) (h' : Sent socket before calls lines') :
    lines = lines' := by
  induction h generalizing lines' with
  | nil =>
    cases h'
    rfl
  | cons hline hs ih =>
    cases h' with
    | cons hline' hs' => rw [hline.unique hline', ih hs']

theorem length_eq (h : Sent socket before calls lines) : lines.length = calls.length := by
  induction h with
  | nil => rfl
  | cons hline hs ih => rw [List.length_cons, List.length_cons, ih]

/-- The calls have the numbers that follow those of the calls before. -/
theorem isRequest (h : Sent socket before calls lines) {i : Nat} (hi : i < calls.length)
    (hi' : i < lines.length) : IsRequest lines[i] (number (before.length + i + 1)) calls[i] := by
  induction h generalizing i with
  | nil => cases hi
  | cons hline hs ih =>
    rename_i before calls call line lines
    cases i with
    | zero =>
      have hnumber : number (before.length + 1) < capacity 8 := Nat.mod_lt _ (by decide)
      rw [List.getElem_cons_zero, List.getElem_cons_zero,
        hline.unique (sends_requestLine socket before call)]
      exact isRequest_requestLine hnumber call
    | succ i =>
      have hrest := ih (Nat.lt_of_succ_lt_succ hi) (Nat.lt_of_succ_lt_succ hi')
      rw [List.length_append, List.length_singleton] at hrest
      rw [List.getElem_cons_succ, List.getElem_cons_succ, ← Nat.add_assoc,
        Nat.add_right_comm before.length i 1]
      exact hrest

/-- The numbers start again only after `capacity 8` calls. -/
theorem nodup (h : Sent socket before calls lines) (hfew : calls.length < capacity 8) :
    lines.Nodup := by
  refine List.pairwise_iff_getElem.2 fun i j hi hj hij hsame => ?_
  have hlen := h.length_eq
  have hrequest := h.isRequest (hlen ▸ hi) hi
  have hrequest' := h.isRequest (hlen ▸ hj) hj
  rw [hsame] at hrequest
  have hnumber := (hrequest.unique hrequest').1
  have hcapacity : capacity 8 = 18446744073709551616 := rfl
  rw [number, number, hcapacity] at hnumber
  omega

end Sent

/-- Whatever calls a client makes, each sends one line, which is the request for this call with its
number and nothing else. No two of fewer than `capacity 8` calls send the same line. -/
theorem requests_sent (socket : Path) (calls : List VaultCall) : ∃ lines,
    Sent socket [] calls lines ∧ (∀ other, Sent socket [] calls other → other = lines) ∧
      lines.length = calls.length ∧
      (∀ i (hi : i < calls.length) (hi' : i < lines.length),
        IsRequest lines[i] ((i + 1) % capacity 8) calls[i]) ∧
      (calls.length < capacity 8 → lines.Nodup) := by
  obtain ⟨lines, h⟩ := exists_sent socket [] calls
  refine ⟨lines, h, fun other h' => h'.unique h, h.length_eq, fun i hi hi' => ?_, h.nodup⟩
  have hrequest := h.isRequest hi hi'
  rwa [List.length_nil, Nat.zero_add] at hrequest

end VaultAgent.Rpc
