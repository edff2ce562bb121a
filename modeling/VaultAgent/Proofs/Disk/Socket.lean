import VaultAgent.Disk.Socket
import VaultAgent.Proofs.Disk.File

/-!
# What the steps on sockets do

Only a removal takes anything away, and no more than what its path leads to (`Removes`). A new socket is
put where nothing was, with a number that no other socket has had. Who connects learns whether somebody
listens, unless the path is too long, the mode of the socket forbids it or the disk has a fault there
(`Admits`).
-/

namespace VaultAgent

/-- The same with another mode. -/
def Node.withMode (mode : Nat) : Node → Node
  | .directory => .directory
  | .file _ content => .file mode content
  | .socket _ id => .socket mode id

/-- The number of the socket whose file it is. -/
def Node.socket? : Node → Option Nat
  | .socket _ id => some id
  | _ => none

namespace Disk

open VaultAgent.Action

variable {d d' : Disk} {p : Path} {place : Place} {node : Node} {mode id : Nat} {u : Unit}

/-- The disk on which somebody listens on another socket. -/
def heard (d : Disk) : Disk :=
  { d with listening := d.nextSocket :: d.listening, nextSocket := d.nextSocket + 1 }

/-- The path of a socket may have this length. -/
def FitsSocket (p : Path) : Prop :=
  (Utf8.bytes p.text).length < socketPathLimit

theorem checkSocketPath_eq_ok : checkSocketPath p = .ok () ↔ '\x00' ∉ p.text.toList ∧ FitsSocket p := by
  rw [checkSocketPath, except_guard_eq_ok, FitsSocket, ← Nat.not_le]
  refine and_congr_right fun _ => ?_
  split <;> simp_all [throw, throwThe, MonadExceptOf.throw, pure, Except.pure]

/-! ## Removing -/

/-- A removal at the path takes away what is at this place. -/
structure Removes (d : Disk) (p : Path) (place : Place) (node : Node) : Prop where
  found : d.find p = .ok (place, node)
  single : node ≠ .directory
  allowed : d.fault? (.remove place) = none

theorem Removes.node? (h : d.Removes p place node) : d.node? place = some node := by
  obtain ⟨g, -, -, hn⟩ := goal_of_find h.found
  exact hn

theorem Removes.remove_eq (h : d.Removes p place node) : remove p d = .ok () (d.drop place) := by
  rw [remove, bind_of_ok (ask_of_ok h.found)]
  simp only [h.single, if_false]
  rw [bind_of_ok (checkFault_of_none h.allowed)]
  rfl

theorem remove_eq_ok (h : remove p d = .ok u d') :
    ∃ place node, d.Removes p place node ∧ d' = d.drop place := by
  obtain ⟨⟨place, node⟩, hf, h⟩ := ask_bind_eq_ok.1 h
  obtain ⟨hn, h⟩ := guard_eq_ok.1 h
  obtain ⟨hfault, h⟩ := checkFault_bind_eq_ok.1 h
  cases h
  exact ⟨place, node, ⟨hf, hn, hfault⟩, rfl⟩

theorem failsClean_remove (p : Path) : (remove p).FailsClean := by
  refine .bind (asks_ask _) fun q => ?_
  dsimp only
  split
  · exact (Asks.throw _).failsClean
  · exact .bind (asks_checkFault _) fun _ => .modify _

/-- A removal takes away one thing or nothing. -/
theorem after_remove (p : Path) (d : Disk) :
    (∀ place node, ¬ d.Removes p place node) ∧ (remove p).after d = d ∨
      ∃ place node, d.Removes p place node ∧ (remove p).after d = d.drop place := by
  cases h : remove p d with
  | ok u d' =>
    obtain ⟨place, node, hr, rfl⟩ := remove_eq_ok h
    exact .inr ⟨place, node, hr, after_of_ok h⟩
  | error e d' =>
    obtain rfl := failsClean_remove p d e d' h
    refine .inl ⟨fun place node hr => ?_, after_of_error h⟩
    rw [hr.remove_eq] at h
    cases h

theorem nextSocket_remove (p : Path) (d : Disk) : ((remove p).after d).nextSocket = d.nextSocket := by
  rcases after_remove p d with ⟨-, he⟩ | ⟨place, node, -, he⟩ <;> rw [he]
  rfl

/-- A removal takes away only what it may if what it takes away is of that kind. -/
theorem spares_remove {may : Node → Prop} :
    (∀ place node, d.node? place = some node →
      ((remove p).after d).node? place = some node ∨ d.find p = .ok (place, node) ∧ may node) ↔
    ¬ ∃ place node, d.Removes p place node ∧ ¬ may node := by
  rcases after_remove p d with ⟨hnone, he⟩ | ⟨place, node, hr, he⟩ <;> rw [he]
  · refine iff_of_true (fun place node hn => .inl hn) ?_
    rintro ⟨place, node, hr, -⟩
    exact hnone place node hr
  · constructor
    · rintro hspares ⟨place', node', hr', hnot⟩
      obtain ⟨rfl, rfl⟩ := Prod.mk.inj (Except.ok.inj (hr.found.symm.trans hr'.found))
      rcases hspares place node hr.node? with hkept | ⟨-, hmay⟩
      · simp [drop] at hkept
      · exact hnot hmay
    · intro hno q other hq
      by_cases hqp : q = place
      · subst hqp
        obtain rfl := Option.some.inj (hr.node?.symm.trans hq)
        exact .inr ⟨hr.found, not_not.1 fun hmay => hno ⟨q, node, hr, hmay⟩⟩
      · exact .inl (by simpa [drop, hqp] using hq)

/-! ## Connecting -/

theorem look_of_find (h : d.find p = .ok (place, node)) : d.look p = .ok node := by
  rw [look, h]
  rfl

theorem find_of_look (h : d.look p = .ok node) : ∃ place, d.find p = .ok (place, node) := by
  rw [look] at h
  cases hf : d.find p with
  | error e => rw [hf] at h; cases h
  | ok q =>
    rw [hf] at h
    cases h
    exact ⟨q.1, rfl⟩

/-- Whoever connects to a socket with this mode at this place learns whether somebody listens. -/
structure Admits (d : Disk) (p : Path) (place : Place) (mode : Nat) : Prop where
  fits : FitsSocket p
  writable : isWritable mode = true
  reached : d.fault? (.connect place) = none

/-- Somebody answers at a socket that a path leads to if he listens and can be asked. -/
theorem connect_eq_ok_iff (hf : d.find p = .ok (place, .socket mode id)) :
    (∃ n, d.connect p = .ok n) ↔ id ∈ d.listening ∧ d.Admits p place mode := by
  obtain ⟨g, hg, -⟩ := goal_of_find hf
  have hnul := (goal_eq_ok.1 hg).1
  constructor
  · rintro ⟨n, h⟩
    obtain ⟨u, hc, h⟩ := except_bind_eq_ok.1 h
    obtain ⟨q, hq, h⟩ := except_bind_eq_ok.1 h
    obtain rfl := Except.ok.inj (hf.symm.trans hq)
    cases hr : d.fault? (.connect place) with
    | some fault =>
      simp only [hr] at h
      cases h
    | none =>
      simp only [hr] at h
      obtain ⟨hw, h⟩ := except_guard_eq_ok.1 h
      have hid : id ∈ d.listening := by
        by_contra hid
        simp only [hid, if_false] at h
        cases h
      exact ⟨hid, (checkSocketPath_eq_ok.1 hc).2, by simpa using hw, hr⟩
  · rintro ⟨hid, hfit, hw, hr⟩
    refine ⟨id, except_bind_eq_ok.2 ⟨(), checkSocketPath_eq_ok.2 ⟨hnul, hfit⟩, ?_⟩⟩
    refine except_bind_eq_ok.2 ⟨_, hf, ?_⟩
    simp only [hr]
    exact except_guard_eq_ok.2 ⟨by simpa using hw, if_pos hid⟩

/-! ## Listening -/

theorem listen_eq_ok (h : listen p d = .ok id d') : id = d.nextSocket ∧
    (p.isEmpty = true ∧ d' = d.heard ∨ ∃ place, d.EndsAt p place ∧ d.node? place = none ∧
      d' = (d.put place (.socket (newMode 0o777) id)).heard) := by
  obtain ⟨u, t, hrun, h⟩ := bind_eq_ok.1 h
  obtain ⟨-, rfl⟩ := ofExcept_eq_ok.1 hrun
  rw [get_bind] at h
  dsimp only at h
  cases hp : p.isEmpty with
  | true =>
    rw [hp] at h
    cases h
    exact ⟨rfl, .inl ⟨rfl, rfl⟩⟩
  | false =>
    rw [hp] at h
    obtain ⟨g, hg, h⟩ := ask_bind_eq_ok.1 h
    cases g with
    | directory q => cases h
    | entry parent name slash =>
      obtain ⟨place, he, h⟩ := ask_bind_eq_ok.1 h
      rw [get_bind] at h
      obtain ⟨hn, h⟩ := guard_eq_ok.1 h
      obtain ⟨hs, h⟩ := guard_eq_ok.1 h
      cases h
      obtain rfl : slash = false := by simpa using hs
      exact ⟨rfl, .inr ⟨place, ⟨parent, name, hg, he⟩, by simpa using hn, rfl⟩⟩

theorem failsClean_listen (p : Path) : (listen p).FailsClean := by
  refine .bind (.ofExcept _ _) fun _ => .bind .get fun d => ?_
  split
  · refine .bind (asks_ask _) fun g => ?_
    split
    · exact (Asks.throw _).failsClean
    · refine .bind (asks_ask _) fun place => .bind .get fun d => ?_
      dsimp only
      split
      · exact (Asks.throw _).failsClean
      · split
        · exact (Asks.throw _).failsClean
        · exact fun _ _ _ h => by cases h
  · exact .bind_pure (.modify _)

theorem find_of_isEmpty (hp : p.isEmpty = true) : ∃ e, d.find p = .error e := by
  cases hf : d.find p with
  | error e => exact ⟨e, rfl⟩
  | ok q =>
    obtain ⟨g, hg, -⟩ := goal_of_find hf
    exact absurd hp (goal_eq_ok.1 hg).2.1

/-- Nothing is lost when a socket is made. -/
theorem listen_keeps (p : Path) (h : d.node? place = some node) :
    ((listen p).after d).node? place = some node := by
  cases hl : listen p d with
  | error e d' =>
    obtain rfl := failsClean_listen p d e d' hl
    rwa [after_of_error hl]
  | ok id d' =>
    rw [after_of_ok hl]
    obtain ⟨-, ⟨-, rfl⟩ | ⟨free, -, hn, rfl⟩⟩ := listen_eq_ok hl
    · exact h
    · have hne : place ≠ free := by
        rintro rfl
        rw [hn] at h
        cases h
      simpa [heard, put, hne] using h

/-! ## Changing modes -/

theorem put_of_node? (h : d.node? place = some node) : d.put place node = d := by
  unfold put
  congr 1
  funext q
  by_cases hq : q = place
  · rw [if_pos hq, hq, h]
  · rw [if_neg hq]

theorem setMode_of_error {e : OsError} (hf : d.find p = .error e) : setMode p mode d = .error e d := by
  have ha : ask (·.find p) d = .error e d := by
    rw [ask, get_bind, hf]
    rfl
  rw [setMode, bind_of_error ha]

theorem setMode_of_find (hf : d.find p = .ok (place, node)) :
    setMode p mode d = .ok () (d.put place (node.withMode mode)) := by
  rw [setMode, bind_of_ok (ask_of_ok hf)]
  cases node with
  | directory =>
    obtain ⟨g, -, -, hn⟩ := goal_of_find hf
    exact congrArg _ (put_of_node? hn).symm
  | file mode' content => rfl
  | socket mode' id => rfl

end Disk

end VaultAgent
