import VaultAgent.Protocol.Session
import Mathlib.Tactic.Common

/-!
# The requests of a connection

`Decodes` says which requests a connection reads from what comes, and how it ends: this depends on
the bytes, on the pieces that they come in and on which answers can be sent, and on nothing else.
Serving the connection answers just these requests (`serveAlong_of_decodes`), each in the session that
the ones before it left (`Session.respondAll`).
-/

namespace VaultAgent.Protocol

variable {vault : Vault} {clock : Nat → Nat} {sends : Nat → Bool} {bytes rest : List UInt8}
  {input : Input} {r : Request} {requests : List Request} {e : Ending} {s : Session}

/-! ## Answers one after the other -/

namespace Session

/-- Answers requests one after the other, each at its time. -/
def respondAll (vault : Vault) : (Nat → Nat) → List Request → Session → List Response × Session
  | _, [], s => ([], s)
  | clock, r :: rest, s =>
    let (answer, s) := s.respond (clock 0) vault r
    let (answers, s) := respondAll vault (fun i => clock (i + 1)) rest s
    (answer :: answers, s)

theorem respondAll_cons : respondAll vault clock (r :: requests) s =
    ((s.respond (clock 0) vault r).1 :: (respondAll vault (fun i => clock (i + 1)) requests
        (s.respond (clock 0) vault r).2).1,
      (respondAll vault (fun i => clock (i + 1)) requests (s.respond (clock 0) vault r).2).2) :=
  rfl

theorem length_respondAll (clock : Nat → Nat) (requests : List Request) (s : Session) :
    (respondAll vault clock requests s).1.length = requests.length := by
  induction requests generalizing clock s with
  | nil => rfl
  | cons r requests ih => rw [respondAll_cons, List.length_cons, ih, List.length_cons]

theorem respondAll_concat (clock : Nat → Nat) (requests : List Request) (r : Request)
    (s : Session) : respondAll vault clock (requests ++ [r]) s =
      ((respondAll vault clock requests s).1 ++
          [((respondAll vault clock requests s).2.respond (clock requests.length) vault r).1],
        ((respondAll vault clock requests s).2.respond (clock requests.length) vault r).2) := by
  induction requests generalizing clock s with
  | nil => rfl
  | cons first requests ih => rw [List.cons_append, respondAll_cons, ih]; rfl

/-- Each request is answered in the session that the ones before it left. -/
theorem answer_at {i : Nat} (h : requests[i]? = some r) :
    (respondAll vault clock requests s).1[i]? =
      some ((respondAll vault clock (requests.take i) s).2.respond (clock i) vault r).1 := by
  induction requests generalizing i clock s with
  | nil => cases h
  | cons first requests ih =>
    cases i with
    | zero => cases h; rfl
    | succ i =>
      rw [respondAll_cons, List.getElem?_cons_succ, ih h]
      rfl

end Session

/-! ## What has come -/

theorem arrival_eq_request : arrival bytes = .request r rest ↔
    headerLength + beValue (bytes.take headerLength) ≤ bytes.length ∧
      Request.ofBytes (bytes.drop headerLength) = .ok r ∧
      bytes.drop (headerLength + beValue (bytes.take headerLength)) = rest := by
  unfold arrival
  by_cases hlen : bytes.length < headerLength + beValue (bytes.take headerLength)
  · simp only [hlen, if_true, reduceCtorEq, false_iff]
    rintro ⟨hle, -⟩
    exact absurd hlen (Nat.not_lt.2 hle)
  · simp only [hlen, if_false, Nat.not_lt.1 hlen, true_and]
    cases Request.ofBytes (bytes.drop headerLength) with
    | ok r' => simp
    | error f => simp

theorem arrival_nil : arrival [] = .incomplete := rfl

theorem length_lt_of_arrival (h : arrival bytes = .request r rest) :
    rest.length < bytes.length := by
  obtain ⟨hle, -, rfl⟩ := arrival_eq_request.1 h
  have hpos : 0 < headerLength := by decide
  rw [List.length_drop]
  omega

/-! ## What is decoded -/

/-- With these bytes in the buffer the connection reads these requests from what comes, and ends so. -/
inductive Decodes : (Nat → Bool) → List UInt8 → Input → List Request → Ending → Prop
  | silence {sends : Nat → Bool} {bytes : List UInt8} {ends : Bool} (h : arrival bytes = .incomplete) :
    Decodes sends bytes ⟨[], ends⟩ [] (.ofSilence ends bytes)
  | piece {sends : Nat → Bool} {bytes piece : List UInt8} {pieces : List (List UInt8)} {ends : Bool}
    {requests : List Request} {e : Ending} (h : arrival bytes = .incomplete)
    (hd : Decodes sends (bytes ++ piece) ⟨pieces, ends⟩ requests e) :
    Decodes sends bytes ⟨piece :: pieces, ends⟩ requests e
  | fault {sends : Nat → Bool} {bytes : List UInt8} {input : Input} {f : Fault}
    (h : arrival bytes = .fault f) : Decodes sends bytes input [] (.fault f)
  | broken {sends : Nat → Bool} {bytes rest : List UInt8} {input : Input} {r : Request}
    (h : arrival bytes = .request r rest) (hs : sends 0 = false) :
    Decodes sends bytes input [r] .broken
  | request {sends : Nat → Bool} {bytes rest : List UInt8} {input : Input} {r : Request}
    {requests : List Request} {e : Ending} (h : arrival bytes = .request r rest)
    (hs : sends 0 = true) (hd : Decodes (fun i => sends (i + 1)) rest input requests e) :
    Decodes sends bytes input (r :: requests) e

/-- Serving the connection answers what it decodes, in as many steps as there are pieces and bytes. All
answers are sent unless one cannot be. -/
theorem serveFrames_of_decodes {course : Course} {steps : Nat}
    (h : Decodes course.sends bytes input requests e)
    (ht : bytes.length + input.pieces.flatten.length + input.pieces.length ≤ steps) (s : Session) :
    (serveFrames vault (steps + 1) course bytes input s).ending = e ∧
      (serveFrames vault (steps + 1) course bytes input s).session =
        (s.respondAll vault course.clock requests).2 ∧
      (e ≠ .broken → (serveFrames vault (steps + 1) course bytes input s).output =
        (s.respondAll vault course.clock requests).1.flatMap Response.frame) := by
  generalize hsends : course.sends = sends at h
  induction h generalizing course steps s with
  | silence ha =>
    rw [serveFrames, ha]
    exact ⟨rfl, rfl, fun _ => rfl⟩
  | piece ha hd ih =>
    subst hsends
    simp only [List.flatten_cons, List.length_append, List.length_cons] at ht
    obtain ⟨steps, rfl⟩ : ∃ n, steps = n + 1 := Nat.exists_eq_add_one_of_ne_zero (by omega)
    rw [serveFrames, ha]
    refine ih ?_ s rfl
    simp only [List.length_append]
    omega
  | fault ha =>
    rw [serveFrames, ha]
    exact ⟨rfl, rfl, fun _ => rfl⟩
  | broken ha hs =>
    subst hsends
    simp only [serveFrames, ha, hs, Bool.false_eq_true, if_false]
    exact ⟨trivial, rfl, fun hne => absurd rfl hne⟩
  | @request sends bytes rest input r requests e ha hs hd ih =>
    subst hsends
    have hlt := length_lt_of_arrival ha
    obtain ⟨steps, rfl⟩ : ∃ n, steps = n + 1 := Nat.exists_eq_add_one_of_ne_zero (by omega)
    rw [serveFrames]
    simp only [ha, hs, if_true]
    have hle : rest.length + input.pieces.flatten.length + input.pieces.length ≤ steps := by omega
    obtain ⟨he, hsession, hout⟩ := ih hle _ (show course.next.sends = _ from rfl)
    refine ⟨he, hsession, fun hne => ?_⟩
    rw [hout hne, Session.respondAll_cons, List.flatMap_cons]
    rfl

theorem serveAlong_of_decodes {course : Course} (h : Decodes course.sends [] input requests e)
    (vault : Vault) (s : Session) : (serveAlong course vault input s).ending = e ∧
      (serveAlong course vault input s).session = (s.respondAll vault course.clock requests).2 ∧
      (e ≠ .broken → (serveAlong course vault input s).output =
        (s.respondAll vault course.clock requests).1.flatMap Response.frame) :=
  serveFrames_of_decodes h (by simp) s

/-- All frames in the buffer are read before more is waited for. -/
theorem exists_decodes_of_incomplete
    (h : ∀ sends bytes, arrival bytes = .incomplete → ∃ requests e, Decodes sends bytes input requests e)
    (sends : Nat → Bool) (bytes : List UInt8) :
    ∃ requests e, Decodes sends bytes input requests e := by
  induction hn : bytes.length using Nat.strongRecOn generalizing sends bytes with
  | ind n ih =>
    cases ha : arrival bytes with
    | incomplete => exact h sends bytes ha
    | fault f => exact ⟨_, _, .fault ha⟩
    | request r rest =>
      cases hs : sends 0 with
      | false => exact ⟨_, _, .broken ha hs⟩
      | true =>
        have hlt : rest.length < n := hn ▸ length_lt_of_arrival ha
        obtain ⟨requests, e, hd⟩ := ih rest.length hlt (fun i => sends (i + 1)) rest rfl
        exact ⟨_, _, .request ha hs hd⟩

theorem exists_decodes (sends : Nat → Bool) (bytes : List UInt8) (input : Input) :
    ∃ requests e, Decodes sends bytes input requests e := by
  obtain ⟨pieces, ends⟩ := input
  induction pieces generalizing sends bytes with
  | nil => exact exists_decodes_of_incomplete (fun _ _ ha => ⟨_, _, .silence ha⟩) sends bytes
  | cons piece pieces ih =>
    refine exists_decodes_of_incomplete (fun sends bytes ha => ?_) sends bytes
    obtain ⟨requests, e, hd⟩ := ih sends (bytes ++ piece)
    exact ⟨_, _, .piece ha hd⟩

theorem Decodes.unique {requests' : List Request} {e' : Ending}
    (h : Decodes sends bytes input requests e) (h' : Decodes sends bytes input requests' e') :
    requests = requests' ∧ e = e' := by
  induction h generalizing requests' e' with
  | silence h =>
    cases h' with
    | silence => exact ⟨rfl, rfl⟩
    | fault h' | broken h' | request h' => cases h.symm.trans h'
  | piece h hd ih =>
    cases h' with
    | piece _ hd' => exact ih hd'
    | fault h' | broken h' | request h' => cases h.symm.trans h'
  | fault h =>
    cases h' with
    | fault h' => cases h.symm.trans h'; exact ⟨rfl, rfl⟩
    | silence h' | piece h' | broken h' | request h' => cases h.symm.trans h'
  | broken h hs =>
    cases h' with
    | broken h' => cases h.symm.trans h'; exact ⟨rfl, rfl⟩
    | request _ hs' => cases hs.symm.trans hs'
    | silence h' | piece h' | fault h' => cases h.symm.trans h'
  | request h hs hd ih =>
    cases h' with
    | broken _ hs' => cases hs.symm.trans hs'
    | request h' _ hd' =>
      cases h.symm.trans h'
      obtain ⟨rfl, rfl⟩ := ih hd'
      exact ⟨rfl, rfl⟩
    | silence h' | piece h' | fault h' => cases h.symm.trans h'

end VaultAgent.Protocol
