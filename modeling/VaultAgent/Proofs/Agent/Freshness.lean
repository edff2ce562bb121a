import VaultAgent.Proofs.Agent.Reached
import VaultAgent.Proofs.Store.Reopening

/-!
# No update is lost

An agent shares its file with other programs and reads it again before each operation. So what is in
memory has no say in what an operation does (`IgnoresMemory`), and what it writes is what is in the file
by then, with the change that was asked for (`no_update_is_lost`).
-/

namespace VaultAgent

open VaultAgent.Action

namespace Store

variable {path : Path} {d : Disk} {m : Records}

/-- The records that the file at a path says there are. There are none if the file is not there. -/
inductive Decodes (path : Path) (d : Disk) : Records → Prop
  | absent (h : (Disk.read path).outcome d = .error .noEntry) : Decodes path d .empty
  | content {bytes : List UInt8} {m : Records} (hc : d.contentAt? path = some bytes)
    (hm : Records.ofDocument? bytes = some m) : Decodes path d m

theorem Decodes.of_recordsAt (h : recordsAt path d = .ok m) : Decodes path d m := by
  obtain ⟨r, d', ha, h⟩ := bind_eq_ok.1 (outcome_eq_ok.1 h)
  cases hr : Disk.read path d with
  | ok bytes d'' =>
    rw [attempt_of_ok hr] at ha
    cases ha
    cases hm : Records.ofDocument? bytes with
    | none => simp only [hm] at h; cases h
    | some m' =>
      simp only [hm] at h
      cases h
      exact .content (Disk.contentAt?_of_read hr) hm
  | error e d'' =>
    rw [attempt_of_error hr] at ha
    cases ha
    cases e <;> cases h
    exact .absent (outcome_of_error hr)

theorem Decodes.of_written (h : Written path m d) : Decodes path d m :=
  .content (Disk.contentAt?_eq_some.2 h) (Records.ofDocument?_toDocument m)

end Store

namespace Agent

variable {α β : Type} {w w' : World} {m : Store.Records} {d : Disk} {now : Nat} {vault : Vault}
  {name : String}

/-! ## What leaves the disk alone -/

def DiskIs (d : Disk) (w : World) : Prop :=
  w.disk = d

theorem preserves_disk_onKeyring (a : Keyring.KeyringAction α) :
    (onKeyring a).Preserves (DiskIs d) := by
  intro w hw
  cases h : onKeyring a w with
  | ok x w' =>
    obtain ⟨k, -, rfl⟩ := onKeyring_eq_ok h
    rw [after_of_ok h]
    exact hw
  | error e w' =>
    obtain ⟨e', k, -, rfl⟩ := onKeyring_eq_error h
    rw [after_of_error h]
    exact hw

theorem preserves_disk_serveSecret (now : Nat) (secret : Secret) :
    (serveSecret now secret).Preserves (DiskIs d) := by
  refine .bind ((Asks.ofExcept _ _).preserves _) fun key => ?_
  refine .bind (Asks.get.preserves _) fun w => ?_
  exact .bind (preserves_disk_onKeyring _) fun _ => (Asks.pure _).preserves _

theorem preserves_disk_serveSecrets (now : Nat) (all : List Secret) :
    (serveSecrets now all).Preserves (DiskIs d) := by
  induction all with
  | nil => exact (Asks.pure _).preserves _
  | cons secret rest ih => exact .bind (preserves_disk_serveSecret now secret) fun _ => ih

theorem preserves_disk_dropKeys (rs : List (String × Store.Record)) :
    (dropKeys rs).Preserves (DiskIs d) := by
  induction rs with
  | nil => exact (Asks.pure _).preserves _
  | cons e rest ih =>
    rw [dropKeys]
    split
    · exact .bind (preserves_disk_onKeyring _) fun _ => ih
    · exact ih

theorem preserves_disk_reload : (onStore Store.reload).Preserves (DiskIs d) := by
  rintro w rfl
  cases hm : w.records with
  | ok m => rw [after_of_ok (reload_of_ok hm)]; rfl
  | error e => rw [after_of_error (reload_of_error hm)]; rfl

theorem preserves_disk_secrets : secrets.Preserves (DiskIs d) :=
  .bind preserves_disk_reload fun _ => (asks_ofStore _).preserves _

theorem preserves_disk_serveStore (now : Nat) : (serveStore now).Preserves (DiskIs d) :=
  .bind preserves_disk_secrets fun all => .bind (preserves_disk_serveSecrets now all) fun _ =>
    (Asks.pure _).preserves _

/-! ## What reads the file first -/

/-- The world with other records in memory. -/
def World.withMemory (w : World) (m : Store.Records) : World :=
  w.withStore m w.disk

theorem World.withMemory_self (w : World) : w.withMemory w.agent.store.records = w := rfl

/-- The records in memory have no say in what the action gives, and in what it does to the rest of the
world. -/
def IgnoresMemory (a : AgentAction α) : Prop :=
  ∀ w m, a.outcome (w.withMemory m) = a.outcome w ∧
    ∃ m', a.after (w.withMemory m) = (a.after w).withMemory m'

namespace IgnoresMemory

theorem bind {a : AgentAction α} {f : α → AgentAction β} (ha : IgnoresMemory a)
    (hf : ∀ x, IgnoresMemory (f x)) : IgnoresMemory (a >>= f) := by
  intro w m
  obtain ⟨hout, m', hafter⟩ := ha w m
  cases h : a w with
  | ok x t =>
    rw [outcome_of_ok h, outcome_eq_ok, hafter, after_of_ok h] at hout
    rw [outcome_bind_of_ok h, outcome_bind_of_ok hout, after_bind_of_ok h, after_bind_of_ok hout]
    exact hf x t m'
  | error e t =>
    rw [outcome_of_error h, outcome_eq_error, hafter, after_of_error h] at hout
    have hb := bind_of_error (f := f) h
    have hb' := bind_of_error (f := f) hout
    rw [outcome_of_error hb, outcome_of_error hb', after_of_error hb, after_of_error hb']
    exact ⟨rfl, m', rfl⟩

/-- Once the file has been read again, the records in memory are those in the file. -/
theorem of_reload (f : Unit → AgentAction β) : IgnoresMemory (onStore Store.reload >>= f) := by
  intro w m
  cases hr : w.records with
  | ok m' =>
    have hw := reload_of_ok hr
    have hm : onStore Store.reload (w.withMemory m) = .ok () (w.withStore m' w.disk) :=
      reload_of_ok (w := w.withMemory m) hr
    rw [outcome_bind_of_ok hw, outcome_bind_of_ok hm, after_bind_of_ok hw, after_bind_of_ok hm]
    exact ⟨rfl, _, (World.withMemory_self _).symm⟩
  | error e =>
    have hw := bind_of_error (f := f) (reload_of_error hr)
    have hm := bind_of_error (f := f) (reload_of_error (w := w.withMemory m) hr)
    rw [outcome_of_error hw, outcome_of_error hm, after_of_error hw, after_of_error hm]
    exact ⟨rfl, m, rfl⟩

theorem exportedSecret (vault : Vault) (name : String) : IgnoresMemory (exportedSecret vault name) := by
  intro w m
  rw [after_exportedSecret, after_exportedSecret, outcome_exportedSecret, outcome_exportedSecret]
  exact ⟨rfl, m, rfl⟩

theorem secrets : IgnoresMemory secrets := .of_reload _

theorem serveStore (now : Nat) : IgnoresMemory (serveStore now) := by
  rw [Agent.serveStore, Agent.secrets, bind_assoc]
  exact .of_reload _

theorem importSecret (now : Nat) (vault : Vault) (name : String) :
    IgnoresMemory (importSecret now vault name) :=
  .bind (.exportedSecret vault name) fun _ => .of_reload _

theorem removeSecret (name : String) : IgnoresMemory (removeSecret name) := .of_reload _

end IgnoresMemory

/-! ## What is written -/

theorem decodes_of_importSecret {s : Secret} (h : importSecret now vault name w = .ok s w') :
    ∃ secret m, Admits vault name w secret m ∧ s.name = secret.name ∧
      Store.Decodes w.agent.store.path w'.disk (m.withSecret secret) := by
  obtain ⟨secret, w₀, hs, h⟩ := bind_eq_ok.1 h
  have hw₀ : w₀ = w.withCall (.exportKey name) :=
    (after_of_ok hs).symm.trans (after_exportedSecret vault name w)
  obtain ⟨u, w₁, hr, h⟩ := bind_eq_ok.1 h
  obtain ⟨m, hm, rfl⟩ := reload_eq_ok hr
  obtain ⟨u, w₂, hi, h⟩ := bind_eq_ok.1 h
  obtain ⟨ha, d, rfl, hw⟩ := insert_eq_ok hi
  subst hw₀
  refine ⟨secret, m, ⟨outcome_of_ok hs, hm, ha⟩, ?_⟩
  obtain ⟨r, w₃, hn, h⟩ := bind_eq_ok.1 h
  cases r with
  | error e =>
    -- An import that cannot serve the secret fails in the end.
    obtain ⟨removed, t, -, h⟩ := bind_eq_ok.1 h
    cases h
  | ok stored =>
    cases h
    obtain ⟨hfound, hserve⟩ := serveSecret_of_serveNamed (of_attempt_eq_ok hn)
    refine ⟨(Store.Records.find?_of_secret hfound).1, ?_⟩
    have hdisk : DiskIs d _ := preserves_disk_serveSecret now s
      ((w.withCall (.exportKey name)).withStore (m.withSecret secret) d) rfl
    rw [after_of_ok hserve, DiskIs] at hdisk
    rw [hdisk]
    exact .of_written (Store.find_of_replaceFile hw)

theorem decodes_of_removeSecret {names : List String} (h : removeSecret name w = .ok names w') :
    ∃ m, w.records = .ok m ∧ names = (m.removedWith name).names ∧
      Store.Decodes w.agent.store.path w'.disk (m.leftWithout name) := by
  obtain ⟨u, w₁, hr, h⟩ := bind_eq_ok.1 h
  obtain ⟨m, hm, rfl⟩ := reload_eq_ok hr
  obtain ⟨removed, w₂, hrem, h⟩ := bind_eq_ok.1 h
  obtain ⟨rfl, d, rfl, hw⟩ := remove_eq_ok hrem
  obtain ⟨v, w₃, hdrop, h⟩ := bind_eq_ok.1 h
  cases h
  have hdisk : DiskIs d _ := preserves_disk_dropKeys (m.removedWith name).toList
    (w.withStore (m.leftWithout name) d) rfl
  rw [after_of_ok hdrop, DiskIs] at hdisk
  refine ⟨m, hm, rfl, ?_⟩
  rw [hdisk]
  rcases hw with ⟨hleft, rfl⟩ | hw
  · rw [hleft]
    exact .of_recordsAt hm
  · exact .of_written (Store.find_of_replaceFile hw)

theorem outcome_secrets (w : World) :
    secrets.outcome w = (w.records >>= Store.Records.secrets).mapError .store := by
  rw [secrets]
  cases hm : w.records with
  | error e =>
    rw [outcome_of_error (bind_of_error (reload_of_error hm))]
    rfl
  | ok m =>
    rw [outcome_bind_of_ok (reload_of_ok hm), outcome_ofStore]
    rfl

/-! ## The operations -/

/-- An import adds one record to those that are in the file by then, a removal takes out those that it
names, and the others write nothing: they answer from the file. None of them minds what was in memory. -/
theorem no_update_is_lost (now : Nat) (vault : Vault) (name : String) (w : World) :
    (∀ s w', importSecret now vault name w = .ok s w' → ∃ m r, w.records = .ok m ∧
      m.contains s.name = false ∧
      Store.Decodes w.agent.store.path w'.disk (m.insert s.name r)) ∧
    (∀ names w', removeSecret name w = .ok names w' → ∃ m, w.records = .ok m ∧
      (∀ other ∈ names, m.contains other = true) ∧
      Store.Decodes w.agent.store.path w'.disk (m.filter fun other _ => other ∉ names)) ∧
    (secrets.outcome w = (w.records >>= Store.Records.secrets).mapError .store ∧
      (secrets.after w).disk = w.disk) ∧
    ((∀ n w', serveStore now w = .ok n w' →
        ∃ m all, w.records = .ok m ∧ m.secrets = .ok all ∧ n = all.length) ∧
      ((serveStore now).after w).disk = w.disk) ∧
    IgnoresMemory (importSecret now vault name) ∧ IgnoresMemory (removeSecret name) ∧
    IgnoresMemory secrets ∧ IgnoresMemory (serveStore now) := by
  refine ⟨fun s w' h => ?_, fun names w' h => ?_, ⟨outcome_secrets w, preserves_disk_secrets w rfl⟩,
    ⟨fun n w' h => ?_, preserves_disk_serveStore now w rfl⟩, .importSecret now vault name,
    .removeSecret name, .secrets, .serveStore now⟩
  · obtain ⟨secret, m, ⟨-, hm, hn, -⟩, hname, hd⟩ := decodes_of_importSecret h
    refine ⟨m, .ofSecret secret, hm, ?_⟩
    rw [hname]
    exact ⟨hn, hd⟩
  · obtain ⟨m, hm, rfl, hd⟩ := decodes_of_removeSecret h
    rw [Store.Records.leftWithout_eq] at hd
    exact ⟨m, hm, fun other ho => (Store.Records.mem_names_removedWith.1 ho).2.1, hd⟩
  · obtain ⟨all, t, hs, h⟩ := bind_eq_ok.1 h
    obtain ⟨m, hm, hall, rfl⟩ := secrets_eq_ok hs
    obtain ⟨u, t, -, h⟩ := bind_eq_ok.1 h
    cases h
    exact ⟨m, all, hm, hall, rfl⟩

/-- In memory there are records that are not in the file, and not the one that is. -/
def staleWorld : World :=
  (World.fresh (.ofList [("team", onesRecord)])).withMemory Store.nameless

theorem no_update_is_lost_of_stale_world :
    (∃ s w' m r, importSecret 0 (exporting teamKey) "k1" staleWorld = .ok s w' ∧
      staleWorld.records = .ok m ∧ m.contains s.name = false ∧
      Store.Decodes Store.plainPath w'.disk (m.insert s.name r)) ∧
    ∃ w' m, removeSecret "team" staleWorld = .ok ["team"] w' ∧
      staleWorld.records = .ok m ∧ m.contains "team" = true ∧
      Store.Decodes Store.plainPath w'.disk (m.filter fun other _ => other ∉ ["team"]) := by
  have himportable : ((importSecret 0 (exporting teamKey) "k1").outcome staleWorld).isOk = true := by
    decide +kernel
  constructor
  · cases h : importSecret 0 (exporting teamKey) "k1" staleWorld with
    | ok s w' =>
      obtain ⟨m, r, hm, hn, hd⟩ :=
        (no_update_is_lost 0 (exporting teamKey) "k1" staleWorld).1 s w' h
      exact ⟨s, w', m, r, rfl, hm, hn, hd⟩
    | error e w' =>
      rw [outcome_of_error h] at himportable
      cases himportable
  · obtain ⟨w', h⟩ : ∃ w', removeSecret "team" staleWorld = .ok ["team"] w' :=
      ⟨_, outcome_eq_ok.1 (by decide +kernel)⟩
    obtain ⟨m, hm, hc, hd⟩ :=
      (no_update_is_lost 0 (exporting teamKey) "team" staleWorld).2.1 ["team"] w' h
    exact ⟨w', m, h, hm, hc "team" List.mem_cons_self, hd⟩

end Agent

end VaultAgent
