import VaultAgent.Proofs.Base64
import VaultAgent.Proofs.Vault.Responses

/-!
# Which answers count

Of what a vault sends, the first line alone counts, and the number of the call. A line that is not a
response with this number is no answer, whatever else it says (`Judges`). Of a response with the number an
error comes first, and only then the result: so there is no way for a line that belongs to another call,
or that refuses this one, to be taken for a signature (`answers_judged`).

A client may also fail to reach the vault, to write to it, or to read its first line to the end
(`Contact.Fails`). Then it has no line, and no answer.
-/

namespace VaultAgent.Rpc

open VaultAgent.Action

variable {α : Type} {bytes line : List UInt8} {n : Nat} {text : String} {r r' : Response}
  {gives : String → α → Prop} {read : String → Except Fault α}

/-! ## Lines -/

/-- The bytes up to the first line break, with it, or all of them if there is none. -/
inductive IsFirstLine : List UInt8 → List UInt8 → Prop
  | ended {text rest : List UInt8} (h : 10 ∉ text) :
    IsFirstLine (text ++ 10 :: rest) (text ++ [10])
  | unended {bytes : List UInt8} (h : 10 ∉ bytes) : IsFirstLine bytes bytes

theorem firstLine_append (h : 10 ∉ bytes) (rest : List UInt8) :
    firstLine (bytes ++ rest) = bytes ++ firstLine rest := by
  have hpos : ∀ b ∈ bytes, (decide (b ≠ 10)) = true := fun b hb =>
    decide_eq_true fun heq => h (heq ▸ hb)
  rw [firstLine, List.takeWhile_append_of_pos hpos, List.dropWhile_append_of_pos hpos,
    List.append_assoc]
  rfl

theorem firstLine_of_not_mem (h : 10 ∉ bytes) : firstLine bytes = bytes := by
  have hline := firstLine_append h []
  rwa [List.append_nil, show firstLine [] = [] from rfl, List.append_nil] at hline

theorem isFirstLine_iff : IsFirstLine bytes line ↔ firstLine bytes = line := by
  constructor
  · rintro (⟨h⟩ | ⟨h⟩)
    · exact firstLine_append h _
    · exact firstLine_of_not_mem h
  · rintro rfl
    by_cases h : 10 ∈ bytes
    · obtain ⟨text, rest, rfl, htext⟩ := List.eq_append_cons_of_mem h
      rw [firstLine_append htext]
      exact .ended htext
    · rw [firstLine_of_not_mem h]
      exact .unended h

namespace Contact

/-- The client reads the first line of what the vault sends, if it is there before reading fails. -/
inductive Delivers : Contact → List UInt8 → Prop
  | answered {bytes line : List UInt8} (h : IsFirstLine bytes line) : Delivers (.answered bytes) line
  | broken {bytes line : List UInt8} (h : IsFirstLine bytes line) (hend : 10 ∈ bytes) (e : OsError) :
    Delivers (.broken bytes e) line

/-- There is no line to read, and what the system says of that. -/
inductive Fails (socket : Path) : Contact → String → Prop
  | connect (e : OsError) : Fails socket (.failed e) s!"connect {socket.text}: {e.message}"
  | write (e : OsError) : Fails socket (.unsent e) s!"write request: {e.message}"
  | read {bytes : List UInt8} (h : 10 ∉ bytes) (e : OsError) :
    Fails socket (.broken bytes e) s!"read response: {e.message}"

variable {contact : Contact} {line' : List UInt8} {why : String}

theorem Delivers.unique (h : contact.Delivers line) (h' : contact.Delivers line') : line = line' := by
  cases h with
  | answered h =>
    cases h' with
    | answered h' => exact (isFirstLine_iff.1 h).symm.trans (isFirstLine_iff.1 h')
  | broken h hend e =>
    cases h' with
    | broken h' => exact (isFirstLine_iff.1 h).symm.trans (isFirstLine_iff.1 h')

theorem Delivers.not_fails (h : contact.Delivers line) (socket : Path) (why : String) :
    ¬ contact.Fails socket why := by
  intro hf
  cases hf with
  | connect | write => cases h
  | read hnot =>
    cases h with
    | broken _ hend => exact hnot hend

theorem delivers_or_fails (socket : Path) (contact : Contact) :
    (∃ line, contact.Delivers line) ∨ ∃ why, contact.Fails socket why := by
  cases contact with
  | failed e => exact .inr ⟨_, .connect e⟩
  | unsent e => exact .inr ⟨_, .write e⟩
  | answered bytes => exact .inl ⟨_, .answered (isFirstLine_iff.2 rfl)⟩
  | broken bytes e =>
    by_cases hend : 10 ∈ bytes
    · exact .inl ⟨_, .broken (isFirstLine_iff.2 rfl) hend e⟩
    · exact .inr ⟨_, .read hend e⟩

theorem Delivers.call_eq (h : contact.Delivers line) (socket : Path) (n : Nat) :
    call socket n contact = result n line := by
  cases h with
  | answered h => rw [call, isFirstLine_iff.1 h]
  | broken h hend e => rw [call, if_pos hend, isFirstLine_iff.1 h]

theorem Fails.call_eq {socket : Path} (h : contact.Fails socket why) (n : Nat) :
    ∃ fault, call socket n contact = .error fault ∧ fault.toVaultError = .unavailable why := by
  cases h with
  | connect e => exact ⟨_, rfl, rfl⟩
  | write e => exact ⟨_, rfl, rfl⟩
  | read h e => exact ⟨.broken e, if_neg h, rfl⟩

end Contact

/-- The bytes are text. -/
def IsText (bytes : List UInt8) : Prop :=
  ∃ cs, bytes = Utf8.encode cs

/-- The line says that this is the response. Blanks at its end do not count. -/
def Responds (line : List UInt8) (r : Response) : Prop :=
  ∃ cs j, line = Utf8.encode cs ∧ Json.IsDocument (Utf8.encode (Blank.trimEnd cs)) j ∧ IsResponse j r

theorem responds_encode {cs : List Char} : Responds (Utf8.encode cs) r ↔
    (Json.ofBytes? (Utf8.encode (Blank.trimEnd cs)) >>= Response.ofJson?) = some r := by
  rw [Option.bind_eq_bind, Option.bind_eq_some_iff]
  constructor
  · rintro ⟨cs', j, heq, hj, hr⟩
    have hdecode := Utf8.decode_eq_ok.2 heq.symm
    rw [Utf8.decode_encode] at hdecode
    obtain rfl := Except.ok.inj hdecode
    exact ⟨j, Json.ofBytes?_eq_some.2 hj, ofJson?_iff.2 hr⟩
  · rintro ⟨j, hj, hr⟩
    exact ⟨cs, j, rfl, Json.ofBytes?_eq_some.1 hj, ofJson?_iff.1 hr⟩

/-- One line is no more than one response. -/
theorem Responds.unique (h : Responds line r) (h' : Responds line r') : r = r' := by
  obtain ⟨cs, -, rfl, -⟩ := id h
  exact Option.some.inj ((responds_encode.1 h).symm.trans (responds_encode.1 h'))

/-! ## The result in a line -/

theorem result_nil (n : Nat) : result n [] = .error .silent := rfl

theorem result_of_not_text (hne : line ≠ []) (h : ¬ IsText line) (n : Nat) :
    ∃ fault, result n line = .error (.notText fault) := by
  cases hd : Utf8.decode line with
  | ok cs => exact absurd ⟨cs, (Utf8.decode_eq_ok.1 hd).symm⟩ h
  | error fault =>
    refine ⟨fault, ?_⟩
    rw [result, if_neg hne]
    simp only [hd]
    rfl

theorem result_of_no_response (hne : line ≠ []) (ht : IsText line) (h : ∀ r, ¬ Responds line r)
    (n : Nat) : result n line = .error .notResponse := by
  obtain ⟨cs, rfl⟩ := ht
  have hnone : (Json.ofBytes? (Utf8.encode (Blank.trimEnd cs)) >>= Response.ofJson?) = none :=
    Option.eq_none_iff_forall_ne_some.2 fun r hr => h r (responds_encode.2 hr)
  rw [result, if_neg hne]
  simp only [Utf8.decode_encode, hnone]
  rfl

theorem Responds.ne_nil (h : Responds line r) : line ≠ [] := by
  rintro rfl
  obtain ⟨cs, j, heq, hj, -⟩ := h
  obtain rfl : cs = [] := (Except.ok.inj (Utf8.decode_eq_ok.2 heq.symm)).symm
  exact hj.ne_nil rfl

/-- In a response the number comes first, then the error, then the result. -/
theorem result_of_responds (h : Responds line r) (n : Nat) : result n line =
    if r.number ≠ n then .error (.otherNumber r.number n)
    else match r.error?.filter (· ≠ "") with
    | some why => .error (.refused why)
    | none =>
      match r.result? with
      | none => .error .void
      | some s => .ok s := by
  have hne := h.ne_nil
  obtain ⟨cs, -, rfl, -⟩ := id h
  rw [result, if_neg hne]
  simp only [Utf8.decode_encode, responds_encode.1 h]
  by_cases hn : r.number = n
  · rw [if_neg (not_not_intro hn), if_neg (not_not_intro hn)]
    cases r.error?.filter (· ≠ "") with
    | some why => rfl
    | none => cases r.result? <;> rfl
  · rw [if_pos hn, if_pos hn]
    rfl

/-! ## What an answer gives -/

/-- The error does not refuse the call. -/
def Passes (error? : Option String) : Prop :=
  ∀ why ∈ error?, why = ""

/-- The text is base64 of the bytes, perhaps with blanks around it. -/
def Spells (text : String) (bytes : List UInt8) : Prop :=
  Base64.encode bytes = Utf8.encode (Blank.trim text.toList)

/-- What the call with number `n` gives for a line, if `gives` says what becomes of a result. -/
structure Judges (n : Nat) (line : List UInt8) (gives : String → α → Prop)
    (got : Except VaultError α) : Prop where
  unread : line = [] ∨ ¬ IsText line → ∃ why, got = .error (.unavailable why)
  undecoded : line ≠ [] → IsText line → (∀ r, ¬ Responds line r) → ∃ why, got = .error (.protocol why)
  misnumbered : ∀ r, Responds line r → r.number ≠ n → ∃ why, got = .error (.protocol why)
  denied : ∀ result? why, Responds line ⟨n, result?, some why⟩ → why ≠ "" →
    got = .error (.denied why)
  void : ∀ error?, Responds line ⟨n, none, error?⟩ → Passes error? →
    ∃ why, got = .error (.protocol why)
  given : ∀ text error? x, Responds line ⟨n, some text, error?⟩ → Passes error? → gives text x →
    got = .ok x
  ungiven : ∀ text error?, Responds line ⟨n, some text, error?⟩ → Passes error? →
    (∀ x, ¬ gives text x) → ∃ why, got = .error (.protocol why)
  accepts : ∀ x, got = .ok x →
    ∃ text error?, Responds line ⟨n, some text, error?⟩ ∧ Passes error? ∧ gives text x

theorem filter_eq_none_iff {error? : Option String} :
    error?.filter (· ≠ "") = none ↔ Passes error? := by
  rw [Option.filter_eq_none_iff]
  simp [Passes]

theorem responds_of_result_eq_ok (h : result n line = .ok text) : ∃ r, Responds line r := by
  have hne : line ≠ [] := by
    rintro rfl
    cases h
  have ht : IsText line := by
    by_contra ht
    obtain ⟨fault, hfault⟩ := result_of_not_text hne ht n
    rw [hfault] at h
    cases h
  by_contra hnone
  rw [result_of_no_response hne ht (not_exists.1 hnone)] at h
  cases h

theorem result_eq_ok : result n line = .ok text ↔
    ∃ error?, Responds line ⟨n, some text, error?⟩ ∧ Passes error? := by
  constructor
  · intro h
    obtain ⟨⟨number, result?, error?⟩, hr⟩ := responds_of_result_eq_ok h
    rw [result_of_responds hr] at h
    by_cases hn : number = n
    · rw [if_neg (not_not_intro hn)] at h
      cases hpass : error?.filter (· ≠ "") with
      | some why =>
        simp only [hpass] at h
        cases h
      | none =>
        simp only [hpass] at h
        cases result? with
        | none => cases h
        | some s =>
          cases h
          subst hn
          exact ⟨error?, hr, filter_eq_none_iff.1 hpass⟩
    · rw [if_pos hn] at h
      cases h
  · rintro ⟨error?, hr, hpass⟩
    rw [result_of_responds hr, if_neg (not_not_intro rfl)]
    simp only [filter_eq_none_iff.2 hpass]

theorem judges_of_read (hread : ∀ s x, read s = .ok x ↔ gives s x)
    (hfault : ∀ s fault, read s = .error fault → ∃ why, fault.toVaultError = .protocol why)
    (n : Nat) (line : List UInt8) :
    Judges n line gives ((result n line >>= read).mapError Fault.toVaultError) where
  unread := by
    rintro h
    by_cases hne : line = []
    · rw [hne, result_nil]
      exact ⟨_, rfl⟩
    · obtain ⟨fault, hfault⟩ := result_of_not_text hne (h.resolve_left hne) n
      rw [hfault]
      exact ⟨_, rfl⟩
  undecoded hne ht h := by
    rw [result_of_no_response hne ht h]
    exact ⟨_, rfl⟩
  misnumbered r hr hn := by
    rw [result_of_responds hr, if_pos hn]
    exact ⟨_, rfl⟩
  denied result? why hr hwhy := by
    rw [result_of_responds hr, if_neg (not_not_intro rfl)]
    simp [Option.filter, hwhy]
    rfl
  void error? hr hpass := by
    rw [result_of_responds hr, if_neg (not_not_intro rfl)]
    simp only [filter_eq_none_iff.2 hpass]
    exact ⟨_, rfl⟩
  given text error? x hr hpass hx := by
    rw [result_eq_ok.2 ⟨error?, hr, hpass⟩]
    exact mapError_eq_ok.2 ((hread text x).2 hx)
  ungiven text error? hr hpass hx := by
    rw [result_eq_ok.2 ⟨error?, hr, hpass⟩]
    cases hs : read text with
    | ok x => exact absurd ((hread text x).1 hs) (hx x)
    | error fault =>
      obtain ⟨why, hwhy⟩ := hfault text fault hs
      refine ⟨why, ?_⟩
      rw [← hwhy]
      exact congrArg _ hs
  accepts x h := by
    obtain ⟨text, hresult, hx⟩ := except_bind_eq_ok.1 (mapError_eq_ok.1 h)
    obtain ⟨error?, hr, hpass⟩ := result_eq_ok.1 hresult
    exact ⟨text, error?, hr, hpass, (hread text x).1 hx⟩

/-- The bytes of a signature, which is base64. -/
def signature (text : String) : Except Fault (List UInt8) :=
  (Base64.decode (Utf8.encode (Blank.trim text.toList))).mapError .notBase64

theorem signature_eq_ok : signature text = .ok bytes ↔ Spells text bytes :=
  mapError_eq_ok.trans Base64.decode_eq_ok

theorem protocol_of_signature_eq_error {fault : Fault} (h : signature text = .error fault) :
    ∃ why, fault.toVaultError = .protocol why := by
  rw [signature] at h
  cases hd : Base64.decode (Utf8.encode (Blank.trim text.toList)) with
  | ok bytes =>
    rw [hd] at h
    cases h
  | error why =>
    rw [hd] at h
    cases h
    exact ⟨_, rfl⟩

theorem sign_eq_bind (socket : Path) (n : Nat) (contact : Contact) :
    sign socket n contact = call socket n contact >>= signature := by
  rw [sign]
  congr 1
  funext text
  rw [signature]
  cases Base64.decode (Utf8.encode (Blank.trim text.toList)) <;> rfl

theorem exportKey_eq_bind (socket : Path) (n : Nat) (contact : Contact) :
    exportKey socket n contact = call socket n contact >>= .ok := by
  rw [exportKey]
  cases call socket n contact <;> rfl

/-! ## Calls -/

/-- What comes of the connection of a call that is made after others. -/
def connection (contact : List VaultCall → List UInt8 → Contact) (before : List VaultCall)
    (call : VaultCall) : Contact :=
  contact before (requestLine (number (before.length + 1)) call)

/-- What becomes of a line that is read in a call. -/
def answer (read : String → Except Fault α) (n : Nat) (line : List UInt8) : Except VaultError α :=
  (result n line >>= read).mapError Fault.toVaultError

variable {contact : List VaultCall → List UInt8 → Contact} {before : List VaultCall}
  {name group why : String} {challenge : List UInt8}

theorem exportKey_of_delivers (h : (connection contact before (.exportKey name)).Delivers line)
    (socket : Path) : ((vault socket contact).exportKey before name).result =
      answer .ok (number (before.length + 1)) line := by
  show (exportKey socket _ (connection contact before _)).mapError _ = _
  rw [exportKey_eq_bind, h.call_eq, answer]

theorem sign_of_delivers
    (h : (connection contact before (.sign name group challenge)).Delivers line) (socket : Path) :
    ((vault socket contact).sign before name group challenge).result =
      answer signature (number (before.length + 1)) line := by
  show (sign socket _ (connection contact before _)).mapError _ = _
  rw [sign_eq_bind, h.call_eq, answer]

theorem exportKey_of_fails {socket : Path}
    (h : (connection contact before (.exportKey name)).Fails socket why) :
    ((vault socket contact).exportKey before name).result = .error (.unavailable why) := by
  obtain ⟨fault, hcall, hfault⟩ := h.call_eq (number (before.length + 1))
  show (exportKey socket _ (connection contact before _)).mapError _ = _
  rw [exportKey_eq_bind, hcall, ← hfault]
  rfl

theorem sign_of_fails {socket : Path}
    (h : (connection contact before (.sign name group challenge)).Fails socket why) :
    ((vault socket contact).sign before name group challenge).result =
      .error (.unavailable why) := by
  obtain ⟨fault, hcall, hfault⟩ := h.call_eq (number (before.length + 1))
  show (sign socket _ (connection contact before _)).mapError _ = _
  rw [sign_eq_bind, hcall, ← hfault]
  rfl

theorem judges_exportKey (n : Nat) (line : List UInt8) :
    Judges n line (fun text x => text = x) (answer .ok n line) :=
  judges_of_read (fun _ _ => ⟨Except.ok.inj, congrArg _⟩) nofun n line

theorem judges_sign (n : Nat) (line : List UInt8) : Judges n line Spells (answer signature n line) :=
  judges_of_read (fun _ _ => signature_eq_ok) (fun _ _ => protocol_of_signature_eq_error) n line

/-- No signature comes of a response to another call, or of one that refuses the call. -/
theorem responds_of_sign_eq_ok {socket : Path}
    (h : ((vault socket contact).sign before name group challenge).result = .ok bytes) :
    ∃ line, (connection contact before (.sign name group challenge)).Delivers line ∧
      (∃ r, Responds line r) ∧
      ∀ r, Responds line r → r.number = number (before.length + 1) ∧ Passes r.error? := by
  rcases (connection contact before (.sign name group challenge)).delivers_or_fails socket with
    ⟨line, hline⟩ | ⟨why, hwhy⟩
  · rw [sign_of_delivers hline] at h
    obtain ⟨text, error?, hr, hpass, -⟩ := (judges_sign _ line).accepts bytes h
    refine ⟨line, hline, ⟨_, hr⟩, fun r hr' => ?_⟩
    rw [hr'.unique hr]
    exact ⟨rfl, hpass⟩
  · rw [sign_of_fails hwhy] at h
    cases h

/-- What a call gives depends on its number and on the line that the client reads, and an answer counts
just if it is a response with this number that does not refuse the call. Where there is no line to read,
no call gives anything. -/
theorem answers_judged : (∀ bytes, ∃! line, IsFirstLine bytes line) ∧
    (∀ socket (c : Contact), (∃! line, c.Delivers line) ∧ (∀ why, ¬ c.Fails socket why) ∨
      (∀ line, ¬ c.Delivers line) ∧ ∃ why, c.Fails socket why) ∧
    ∃ (exported : Nat → List UInt8 → Except VaultError String)
      (signed : Nat → List UInt8 → Except VaultError (List UInt8)),
      (∀ socket contact before name line,
        (connection contact before (.exportKey name)).Delivers line →
        ((vault socket contact).exportKey before name).result =
          exported (number (before.length + 1)) line) ∧
      (∀ socket contact before name group challenge line,
        (connection contact before (.sign name group challenge)).Delivers line →
        ((vault socket contact).sign before name group challenge).result =
          signed (number (before.length + 1)) line) ∧
      (∀ socket contact before name why,
        (connection contact before (.exportKey name)).Fails socket why →
        ((vault socket contact).exportKey before name).result = .error (.unavailable why)) ∧
      (∀ socket contact before name group challenge why,
        (connection contact before (.sign name group challenge)).Fails socket why →
        ((vault socket contact).sign before name group challenge).result = .error (.unavailable why)) ∧
      (∀ n line, Judges n line (fun text x => text = x) (exported n line)) ∧
      (∀ n line, Judges n line Spells (signed n line)) ∧
      ∀ socket contact before name group challenge bytes,
        ((vault socket contact).sign before name group challenge).result = .ok bytes →
        ∃ line, (connection contact before (.sign name group challenge)).Delivers line ∧
          (∃ r, Responds line r) ∧
          ∀ r, Responds line r → r.number = number (before.length + 1) ∧ Passes r.error? := by
  have hline : ∀ bytes, ∃! line, IsFirstLine bytes line := fun bytes =>
    ⟨firstLine bytes, isFirstLine_iff.2 rfl, fun line h => (isFirstLine_iff.1 h).symm⟩
  refine ⟨hline, fun socket c => ?_, answer .ok, answer signature, ?_, ?_, ?_, ?_, judges_exportKey,
    judges_sign, ?_⟩
  · rcases c.delivers_or_fails socket with ⟨line, hline⟩ | ⟨why, hwhy⟩
    · exact .inl ⟨⟨line, hline, fun line' hline' => hline'.unique hline⟩, hline.not_fails socket⟩
    · exact .inr ⟨fun line hline => hline.not_fails socket why hwhy, why, hwhy⟩
  · exact fun socket contact before name line h => exportKey_of_delivers h socket
  · exact fun socket contact before name group challenge line h => sign_of_delivers h socket
  · exact fun socket contact before name why h => exportKey_of_fails h
  · exact fun socket contact before name group challenge why h => sign_of_fails h
  · exact fun socket contact before name group challenge bytes h => responds_of_sign_eq_ok h

/-- A signature, with a member that says nothing and blanks at both of its ends. -/
def signingLine : List UInt8 :=
  Utf8.encode "\x7b\"error\":\"\",\"id\":1,\"x\":[],\"result\":\" c2ln \"\x7d\r\n".toList

/-- A refusal that has a signature too. -/
def refusingLine : List UInt8 :=
  Utf8.encode "\x7b\"id\":1,\"result\":\"c2ln\",\"error\":\"no\"\x7d".toList

theorem responds_signingLine : Responds signingLine ⟨1, some " c2ln ", some ""⟩ :=
  responds_encode.2 (by decide +kernel)

theorem responds_refusingLine : Responds refusingLine ⟨1, some "c2ln", some "no"⟩ :=
  responds_encode.2 (by decide +kernel)

theorem spells_sig : Spells " c2ln " [115, 105, 103] := by
  unfold Spells
  decide +kernel

theorem delivers_signingLine (rest : List UInt8) (e : OsError) :
    (Contact.broken (signingLine ++ rest) e).Delivers signingLine := by
  have hline : signingLine = signingLine.dropLast ++ [10] := by decide +kernel
  have hnot : 10 ∉ signingLine.dropLast := by decide +kernel
  have hfirst : IsFirstLine (signingLine.dropLast ++ 10 :: rest) (signingLine.dropLast ++ [10]) :=
    .ended hnot
  rw [← hline, ← List.singleton_append, ← List.append_assoc, ← hline] at hfirst
  exact .broken hfirst (List.mem_append_left _ (by decide +kernel)) e

theorem delivers_refusingLine : (Contact.answered refusingLine).Delivers refusingLine :=
  .answered (.unended (by decide +kernel))

theorem answers_judged_of_first_call :
    ((vault ⟨"/v"⟩ fun _ _ => .broken (signingLine ++ [109]) .connectionReset).sign
        [] "a" "g" [7]).result = .ok [115, 105, 103] ∧
      ((vault ⟨"/v"⟩ fun _ _ => .answered refusingLine).sign [] "a" "g" [7]).result =
        .error (.denied "no") ∧
      ((vault ⟨"/v"⟩ fun _ _ => .unsent .brokenPipe).sign [] "a" "g" [7]).result =
        .error (.unavailable "write request: Broken pipe (os error 32)") := by
  obtain ⟨-, -, exported, signed, -, hsign, -, hfails, -, hjudges, -⟩ := answers_judged
  have hsigning := hsign ⟨"/v"⟩ (fun _ _ => .broken (signingLine ++ [109]) .connectionReset) [] "a" "g"
    [7] signingLine (delivers_signingLine _ _)
  have hrefusing := hsign ⟨"/v"⟩ (fun _ _ => .answered refusingLine) [] "a" "g" [7] refusingLine
    delivers_refusingLine
  refine ⟨?_, ?_, hfails _ _ [] _ _ _ _ (.write .brokenPipe)⟩
  · rw [hsigning]
    exact (hjudges 1 signingLine).given _ _ _ responds_signingLine (by simp [Passes]) spells_sig
  · rw [hrefusing]
    exact (hjudges 1 refusingLine).denied _ _ responds_refusingLine (by decide)

end VaultAgent.Rpc
