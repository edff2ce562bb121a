import VaultAgent.Daemon
import VaultAgent.Proofs.Agent.Reached
import VaultAgent.Proofs.Ssh.KeyLine
import VaultAgent.Proofs.Store.Reopening
import VaultAgent.Proofs.Store.Resolution

/-!
# The list of stored secrets

The program lists the secrets of a store in the order of their names: a line for each, and in it a
name, a type, a parent and a fingerprint with tabs between them. The first three are printed as they
are, so the list can be read back exactly if no stored name and no stored type holds a tab or a line
feed (`readsAs_iff`). The fingerprint is that under which an agent puts the key into its keyring, and a
dash stands for it exactly if the agent refuses the key (`ShowsKey`).
-/

namespace VaultAgent.Daemon

open VaultAgent.Action
open Agent (entryFor serveSecret)
open CommandLine (Environment Flags)
open Ssh (PublicKey)

variable {s : Store} {t : Secret} {all : List Secret} {key : PublicKey} {now : Nat} {w : Agent.World}

/-! ## Lines and columns -/

/-- The text on the standard output. -/
def Outcome.output (o : Outcome) : List Char :=
  o.lines.flatMap fun line => line.toList ++ ['\n']

/-- What stands in front of each line feed. -/
def linesOf (text : List Char) : List (List Char) :=
  (text.splitOn '\n').dropLast

def fieldsOf (line : List Char) : List (List Char) :=
  line.splitOn '\t'

/-- What a line says of the key of a secret. -/
def keyColumn (t : Secret) : String :=
  match PublicKey.ofLineBytes t.publicData with
  | .ok key => key.fingerprint
  | .error _ => "-"

/-- The columns that are printed as they are given. -/
def givenColumns (t : Secret) : List String :=
  [t.name, t.secretType, t.groupName?.getD "-"]

def columns (t : Secret) : List String :=
  givenColumns t ++ [keyColumn t]

/-- The text has a line for each secret, in the order of the list, whose fields are the columns. -/
def ReadsAs (text : List Char) (all : List Secret) : Prop :=
  (linesOf text).map fieldsOf = all.map fun t => (columns t).map String.toList

instance (text : List Char) (all : List Secret) : Decidable (ReadsAs text all) :=
  inferInstanceAs (Decidable (_ = _))

theorem toList_summary (t : Secret) :
    t.summary.toList = ['\t'].intercalate ((columns t).map String.toList) := by
  have h : t.summary = t.name ++ "\t" ++ t.secretType ++ "\t" ++ t.groupName?.getD "-" ++ "\t" ++
      keyColumn t := rfl
  rw [h]
  simp [columns, givenColumns, List.intercalate]

/-! ## Splitting -/

/-- A piece holds characters of the whole, and not the one that parts it. -/
theorem mem_of_mem_splitOn {α : Type} [DecidableEq α] {x a : α} {xs piece : List α}
    (h : piece ∈ xs.splitOn x) (ha : a ∈ piece) : a ∈ xs ∧ a ≠ x := by
  induction xs generalizing piece with
  | nil =>
    rw [List.splitOn_nil, List.mem_singleton] at h
    subst h
    cases ha
  | cons b xs ih =>
    rw [List.splitOn_cons_eq_if_modifyHead] at h
    split at h
    · rcases List.mem_cons.1 h with rfl | h
      · cases ha
      · exact (ih h ha).imp_left (List.mem_cons_of_mem b)
    · rename_i hb
      obtain ⟨first, rest, hsplit⟩ := List.exists_cons_of_ne_nil (List.splitOn_ne_nil x xs)
      rw [hsplit] at h ih
      rcases List.mem_cons.1 h with rfl | h
      · rcases List.mem_cons.1 ha with rfl | ha
        · exact ⟨List.mem_cons_self, by simpa using hb⟩
        · exact (ih List.mem_cons_self ha).imp_left (List.mem_cons_of_mem b)
      · exact (ih (List.mem_cons_of_mem _ h) ha).imp_left (List.mem_cons_of_mem b)

theorem linesOf_output {lines : List String} (h : ∀ line ∈ lines, '\n' ∉ line.toList) :
    linesOf (Outcome.printed lines).output = lines.map String.toList := by
  have hsplit : (Outcome.printed lines).output.splitOn '\n' = lines.map String.toList ++ [[]] := by
    induction lines with
    | nil => rfl
    | cons line lines ih =>
      obtain ⟨hline, hlines⟩ := List.forall_mem_cons.1 h
      have houtput : (Outcome.printed (line :: lines)).output =
          line.toList ++ '\n' :: (Outcome.printed lines).output := by
        simp [Outcome.output, Outcome.lines]
      rw [houtput, List.splitOn_append_cons_self_of_not_mem hline, ih hlines]
      rfl
  rw [linesOf, hsplit, List.dropLast_concat]

/-! ## The column of the key -/

theorem not_isBlank_of_mem_fingerprint {c : Char} (h : c ∈ key.fingerprint.toList) :
    Blank.isBlank c = false := by
  rw [PublicKey.fingerprint, String.toList_append, List.mem_append] at h
  rcases h with h | h
  · have hall : ("SHA256:".toList.all fun c => !Blank.isBlank c) = true := by decide
    simpa using List.all_eq_true.1 hall c h
  · have htext : c ∈ (Base64.text (sha256.digest key.toBytes)).toList := by
      rw [Base64.unpaddedText, Utf8.ascii, String.toList_ofList] at h
      rw [Base64.text, Utf8.ascii, String.toList_ofList]
      exact List.map_subset _ (List.filter_subset_self _) h
    exact Ssh.KeyLine.not_isBlank_of_isPartChar (Ssh.KeyLine.isPartChar_of_mem_text htext)

theorem not_isBlank_of_mem_keyColumn {c : Char} (h : c ∈ (keyColumn t).toList) :
    Blank.isBlank c = false := by
  unfold keyColumn at h
  split at h
  · exact not_isBlank_of_mem_fingerprint h
  · obtain rfl : c = '-' := by simpa using h
    decide

theorem fingerprint_ne_dash (key : PublicKey) : key.fingerprint ≠ "-" := by
  intro h
  have hlist := congrArg String.toList h
  rw [PublicKey.fingerprint, String.toList_append] at hlist
  cases (List.cons.inj hlist).1

/-- The text is a dash exactly if agents refuse the key of the secret, and else that by which they find
it in their keyring. -/
structure ShowsKey (t : Secret) (text : String) : Prop where
  refused : ∀ now w, text = "-" ↔
    ∃ name fault w', serveSecret now t w = .error (.invalidKey name fault) w'
  registered : ∀ now w, w.agent.keyring.fingerprintOf = PublicKey.fingerprint →
    w.agent.keyring.poisoned = false → text ≠ "-" →
    ∃ key, PublicKey.ofLineBytes t.publicData = .ok key ∧
      serveSecret now t w = .ok () (w.withKeyring { w.agent.keyring with
        slots := (w.agent.keyring.swept now).insert text ⟨entryFor w.agent.timeout t key, none⟩ })

theorem serveSecret_inserts (h : PublicKey.ofLineBytes t.publicData = .ok key)
    (hf : w.agent.keyring.fingerprintOf = PublicKey.fingerprint)
    (hw : w.agent.keyring.poisoned = false) :
    serveSecret now t w = .ok () (w.withKeyring { w.agent.keyring with
      slots := (w.agent.keyring.swept now).insert key.fingerprint
        ⟨entryFor w.agent.timeout t key, none⟩ }) := by
  have hname : w.agent.keyring.fingerprintOf key = key.fingerprint := congrFun hf key
  rw [← hname]
  exact Agent.serveSecret_of_add h (Keyring.addFrom_of_whole hw (Keyring.inReach_of_lasting rfl now) now)

theorem showsKey_keyColumn (t : Secret) : ShowsKey t (keyColumn t) := by
  unfold keyColumn
  cases hkey : PublicKey.ofLineBytes t.publicData with
  | ok key =>
    refine ⟨fun now w => iff_of_false (fingerprint_ne_dash key) ?_, fun now w hf hw _ => ?_⟩
    · rintro ⟨name, fault, w', hs⟩
      cases (Agent.serveSecret_eq_error_of_key hkey hs).1
    · exact ⟨key, hkey, serveSecret_inserts hkey hf hw⟩
  | error fault =>
    refine ⟨fun now w => iff_of_true rfl ?_, fun _ _ _ _ hne => absurd rfl hne⟩
    exact ⟨t.name, fault, w, Agent.serveSecret_of_no_key hkey⟩

/-! ## The whole list -/

/-- The text holds no tab and no line feed. -/
def FitsField (text : String) : Prop :=
  '\t' ∉ text.toList ∧ '\n' ∉ text.toList

instance (text : String) : Decidable (FitsField text) :=
  inferInstanceAs (Decidable (_ ∧ _))

/-- What is printed as it is given holds no tab and no line feed. -/
def FitsLine (t : Secret) : Prop :=
  ∀ x ∈ givenColumns t, FitsField x

theorem FitsLine.fitsField_of_mem_columns (h : FitsLine t) {x : String} (hx : x ∈ columns t) :
    FitsField x := by
  rcases List.mem_append.1 hx with hx | hx
  · exact h x hx
  · obtain rfl := List.mem_singleton.1 hx
    constructor <;> intro hmem <;> cases not_isBlank_of_mem_keyColumn hmem

theorem FitsLine.fieldsOf_summary (h : FitsLine t) :
    fieldsOf t.summary.toList = (columns t).map String.toList := by
  rw [fieldsOf, toList_summary]
  refine List.splitOn_intercalate '\t' ?_ (by simp [columns])
  rintro _ hcs
  obtain ⟨x, hx, rfl⟩ := List.mem_map.1 hcs
  exact (h.fitsField_of_mem_columns hx).1

theorem FitsLine.not_mem_summary (h : FitsLine t) : '\n' ∉ t.summary.toList := by
  have hcolumns : ∀ x ∈ columns t, '\n' ∉ x.toList := fun x hx => (h.fitsField_of_mem_columns hx).2
  rw [toList_summary]
  simpa [columns, givenColumns, List.intercalate] using hcolumns

theorem readsAs_summaries_iff :
    ReadsAs (Outcome.printed (all.map Secret.summary)).output all ↔ ∀ t ∈ all, FitsLine t := by
  constructor
  · intro h t ht x hx
    have hfields := List.mem_map_of_mem (f := fun t => (columns t).map String.toList) ht
    rw [← h] at hfields
    obtain ⟨line, hline, hfields⟩ := List.mem_map.1 hfields
    have hfield : x.toList ∈ fieldsOf line :=
      hfields ▸ List.mem_map_of_mem (List.mem_append_left _ hx)
    -- A field is a piece of a line without tabs, and a line a piece of the text without line feeds.
    constructor
    · intro hmem
      exact (mem_of_mem_splitOn hfield hmem).2 rfl
    · intro hmem
      have hmem := (mem_of_mem_splitOn hfield hmem).1
      exact (mem_of_mem_splitOn (List.dropLast_subset _ hline) hmem).2 rfl
  · intro h
    have hlines : ∀ line ∈ all.map Secret.summary, '\n' ∉ line.toList := by
      intro line hline
      obtain ⟨t, ht, rfl⟩ := List.mem_map.1 hline
      exact (h t ht).not_mem_summary
    rw [ReadsAs, linesOf_output hlines, List.map_map, List.map_map]
    exact List.map_congr_left fun t ht => (h t ht).fieldsOf_summary

/-- Only stored names and stored types can hold what does not belong into a line. -/
theorem forall_fitsLine_iff (h : s.secrets = .ok all) : (∀ t ∈ all, FitsLine t) ↔
    ∀ name r, s.records.find? name = some r → FitsField name ∧ FitsField r.secretType := by
  obtain ⟨-, hnames, hresolved⟩ := Store.Records.secrets_eq_ok_iff.1 h
  constructor
  · intro hall name r hf
    obtain ⟨t, ht, rfl⟩ := (hnames name).1 (NameMap.contains_eq_true.2 ⟨r, hf⟩)
    obtain ⟨-, r', hf', hmember, -⟩ := Store.Records.groupName?_of_secret (hresolved t ht)
    obtain rfl := Option.some.inj (hf.symm.trans hf')
    refine ⟨hall t ht _ (by simp [givenColumns]), ?_⟩
    rw [← hmember.secretType]
    exact hall t ht _ (by simp [givenColumns])
  · intro hrecords t ht
    obtain ⟨-, r, hf, hmember, -, hparent⟩ := Store.Records.groupName?_of_secret (hresolved t ht)
    obtain ⟨hname, htype⟩ := hrecords t.name r hf
    rw [← hmember.secretType] at htype
    have hgroup : FitsField (t.groupName?.getD "-") := by
      cases hg : t.groupName? with
      | none => constructor <;> decide
      | some parent =>
        -- The parent is a stored name itself.
        obtain ⟨r', hf'⟩ := NameMap.contains_eq_true.1 (hparent parent hg)
        exact (hrecords parent r' hf').1
    intro x hx
    rcases List.mem_cons.1 hx with rfl | hx
    · exact hname
    rcases List.mem_cons.1 hx with rfl | hx
    · exact htype
    obtain rfl := List.mem_singleton.1 hx
    exact hgroup

/-! ## The program -/

variable {args : List String} {env : Environment} {vaultAt : Path → Vault}
  {clients : List Protocol.Input} {around : Surroundings} {flags : Flags} {config : Config}
  {d d' : Disk}

theorem list_of_secrets (h : s.secrets = .ok all) : list s = .ok (all.map Secret.summary) := by
  rw [list, h]
  rfl

/-- The program prints the list, and calls no vault. -/
theorem run_of_secrets (hflags : CommandLine.flags env args = .ok flags) (hlist : flags.list = true)
    (hconfig : loadConfig env flags around.disk = .ok config d)
    (hopen : Store.open config.agent.storage d = .ok s d') (h : s.secrets = .ok all) :
    run now args env vaultAt clients around =
      (.printed (all.map Secret.summary), ⟨d', around.calls⟩) := by
  have hact : act now env flags vaultAt clients around =
      .ok (.printed (all.map Secret.summary)) ⟨d', around.calls⟩ := by
    rw [act, bind_of_ok (onPart_of_ok hconfig), bind_of_ok (onPart_of_ok hopen), if_pos hlist,
      list_of_secrets h, ofExcept_ok_bind]
    rfl
  rw [run, hflags]
  simp only [hact]

/-- The store has a secret for each of its names, in their order, and the program prints a line for
each, with the fingerprint under which an agent serves its key. These lines read as the secrets
if, and only if, there is no tab and no line feed in any stored name and stored type. -/
theorem readsAs_iff (h : s.secrets = .ok all) :
    (s.records.ListsAll all ∧ all.length = s.size) ∧ (∀ t ∈ all, ShowsKey t (keyColumn t)) ∧
    (∀ (now : Nat) (args : List String) (env : Environment) (vaultAt : Path → Vault)
      (clients : List Protocol.Input) (around : Surroundings) (flags : Flags) (config : Config)
      (d d' : Disk), CommandLine.flags env args = .ok flags → flags.list = true →
      loadConfig env flags around.disk = .ok config d →
      Store.open config.agent.storage d = .ok s d' →
      run now args env vaultAt clients around =
        (.printed (all.map Secret.summary), ⟨d', around.calls⟩)) ∧
    (ReadsAs (Outcome.printed (all.map Secret.summary)).output all ↔
      ∀ name r, s.records.find? name = some r → FitsField name ∧ FitsField r.secretType) := by
  refine ⟨⟨Store.Records.secrets_eq_ok_iff.1 h, Store.Records.length_secrets h⟩,
    fun t _ => showsKey_keyColumn t, ?_, readsAs_summaries_iff.trans (forall_fitsLine_iff h)⟩
  intro now args env vaultAt clients around flags config d d' hflags hlist hconfig hopen
  exact run_of_secrets hflags hlist hconfig hopen h

/-- A key in a group. -/
def groupRecords : Store.Records :=
  .ofList [("team", .plain ""), ("k1", { Agent.onesRecord with group := "team" })]

def groupSecrets : List Secret :=
  [⟨⟨"k1", "f", "c", "ed25519", Utf8.bytes
      "ssh-ed25519 AAAAC3NzaC1lZDI1NTE5AAAAIAEBAQEBAQEBAQEBAQEBAQEBAQEBAQEBAQEBAQEBAQEB"⟩,
      [⟨"team", "", "", "", []⟩]⟩,
    ⟨⟨"team", "", "", "", []⟩, []⟩]

theorem readsAs_iff_of_group : Store.secrets ⟨Store.plainPath, groupRecords⟩ = .ok groupSecrets ∧
    (∀ t ∈ groupSecrets, ShowsKey t (keyColumn t)) ∧
    ReadsAs (Outcome.printed (groupSecrets.map Secret.summary)).output groupSecrets := by
  have h : Store.secrets ⟨Store.plainPath, groupRecords⟩ = .ok groupSecrets := by decide +kernel
  obtain ⟨-, hkeys, -, hreads⟩ := readsAs_iff h
  refine ⟨h, hkeys, hreads.2 fun name r hf => ?_⟩
  have hfits : ∀ e ∈ groupRecords.toList, FitsField e.1 ∧ FitsField e.2.secretType := by
    decide +kernel
  exact hfits _ (NameMap.mem_toList.2 hf)

/-- A record whose name has a line feed in it. -/
def twoLineRecords : Store.Records :=
  .ofList [("a\nb", .plain "")]

theorem line_feed_takes_two_lines : ∃ (s : Store) (all : List Secret) (around : Surroundings)
    (vaultAt : Path → Vault) (outcome : Outcome),
    Store.open Store.plainPath around.disk = .ok s around.disk ∧ s.secrets = .ok all ∧
    all.length = 1 ∧
    run 0 ["--list", "--storage", "agent_storage.json"] (fun _ => none) vaultAt [] around =
      (outcome, around) ∧ outcome.exitCode = 0 ∧ (linesOf outcome.output).length = 2 ∧
    ¬ ReadsAs outcome.output all := by
  have hflags : CommandLine.flags (fun _ => none) ["--list", "--storage", "agent_storage.json"] =
      .ok { storage := some Store.plainPath, list := true } := by decide +kernel
  have hconfig : loadConfig (fun _ => none) { storage := some Store.plainPath, list := true }
      (Store.diskWith twoLineRecords) =
        .ok { agent := { storage := Store.plainPath } } (Store.diskWith twoLineRecords) := rfl
  have hready := Store.ready_diskWith twoLineRecords
  have hopen : Store.open Store.plainPath (Store.diskWith twoLineRecords) =
      .ok ⟨Store.plainPath, twoLineRecords⟩ (Store.diskWith twoLineRecords) :=
    Store.open_of_read (Disk.read_of_endsAt hready.target (hready.faultless _)
      (Disk.node?_put_self _ _) (by decide))
  have hsecrets : Store.secrets ⟨Store.plainPath, twoLineRecords⟩ =
      .ok [⟨⟨"a\nb", "", "", "", []⟩, []⟩] := by decide +kernel
  exact ⟨_, _, ⟨_, []⟩, fun _ => Agent.exporting "", _, hopen, hsecrets, rfl,
    run_of_secrets hflags rfl hconfig hopen hsecrets, rfl, by decide +kernel, by decide +kernel⟩

end VaultAgent.Daemon
