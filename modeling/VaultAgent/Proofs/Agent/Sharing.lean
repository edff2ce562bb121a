import VaultAgent.Proofs.Agent.Host

/-!
# Agents that share a socket path

However the calls on agents and other programs take turns, no step takes away what it may not exactly if
none does harm (`throughout_spares_iff`). A call that nobody gets into the midst of is `Calm`: it binds
and takes its own socket away again, and harms only a socket that somebody listens on and that cannot be
asked (`Host.calm_begins_iff`).
-/

namespace VaultAgent.Agent

open VaultAgent.Action
open Disk

variable {w : World} {d : Disk} {p : Path} {place : Place} {node : Node} {mode id : Nat}

/-! ## What is left after a step -/

namespace Task

variable {stage : Stage} {service? : Option Service} {next : Task}

theorem next_bind_of_ok {r : Stage ⊕ Nat} {d' : Disk}
    (hs : stage.step w.agent.socket w.disk = .ok r d') :
    (bind stage service?).next w = afterStage service? r := by
  rw [Task.next, step, outcome_bind_pure, outcome_of_ok (forSocket_eq_ok.2 ⟨d', hs, rfl⟩)]
  rfl

/-- What is left after a step of a bind depends on what the step gives. -/
theorem next_bind_eq_some (h : (bind stage service?).next w = some next) : ∃ r d',
    stage.step w.agent.socket w.disk = .ok r d' ∧ afterStage service? r = some next := by
  cases hs : stage.step w.agent.socket w.disk with
  | ok r d' => exact ⟨r, d', rfl, (next_bind_of_ok hs).symm.trans h⟩
  | error fault d' =>
    rw [Task.next, step, outcome_bind_pure,
      outcome_of_error (forSocket_eq_error.2 ⟨fault, d', hs, rfl, rfl⟩)] at h
    cases h

theorem next_serve (id : Nat) (service : Service) (w : World) :
    (serve id service).next w = some (finish id) := by
  obtain ⟨agent, calls, h, -⟩ := service.action_eq_ok w
  rw [Task.next, step, outcome_bind_pure, outcome_of_ok h]
  rfl

theorem next_shutdown (w : World) : shutdown.next w = none := by
  rw [Task.next, step, outcome_bind_pure, outcome_of_ok (shutdown_eq w)]
  rfl

end Task

namespace Host

variable {h : Host} {a i : Nat} {t : Task} {stage : Stage} {service? : Option Service} {deed : Deed}

/-! ## Calls that nobody gets into the midst of -/

/-- Nothing does harm if the call takes all of its steps one right after the other. -/
def Calm (h : Host) (i : Nat) : Prop :=
  ∀ n, Throughout (fun h a t => ¬ h.Harms a t) h (List.replicate n (.goesOn i))

theorem calm_of_none (ht : h.tasks i = none) : h.Calm i := by
  intro n
  induction n with
  | zero => trivial
  | succ n ih =>
    refine ⟨fun task htask => ?_, ?_⟩
    · rw [ht] at htask
      cases htask
    · rw [goesOn_of_none ht]
      exact ih

theorem calm_iff (ht : h.tasks i = some (a, t)) :
    h.Calm i ↔ ¬ h.Harms a t ∧ (h.goesOn i).Calm i := by
  constructor
  · exact fun hc => ⟨(hc 1).1 (a, t) ht, fun n => (hc (n + 1)).2⟩
  · rintro ⟨hharm, hc⟩ n
    cases n with
    | zero => trivial
    | succ n =>
      refine ⟨fun task htask => ?_, hc n⟩
      cases ht.symm.trans htask
      exact hharm

/-- The call stays calm if it does no harm now and is calm afterwards, unless it is over then. -/
theorem calm_of_next (ht : h.tasks i = some (a, t)) (hharm : ¬ h.Harms a t)
    (hnext : ∀ next, t.next (h.world a) = some next → (h.goesOn i).tasks i = some (a, next) →
      (h.goesOn i).Calm i) : h.Calm i := by
  refine (calm_iff ht).2 ⟨hharm, ?_⟩
  have htasks := tasks_goesOn ht
  cases hn : t.next (h.world a) with
  | none =>
    rw [hn] at htasks
    exact calm_of_none htasks
  | some next =>
    rw [hn] at htasks
    exact hnext next hn htasks

/-- The path of the agent ends at a socket that it has bound. -/
structure Has (h : Host) (a id : Nat) : Prop where
  there : ∃ place mode, h.disk.EndsAt (h.socket a) place ∧ h.disk.node? place = some (.socket mode id)
  own : id ∈ h.bound a

theorem Has.goesOn (hh : h.Has a id) (ht : h.tasks i = some (a, t))
    (hnodes : (h.goesOn i).disk.node? = h.disk.node?) : (h.goesOn i).Has a id := by
  obtain ⟨⟨place, mode, hends, hn⟩, hown⟩ := hh
  have hsame : SameDirectories h.disk (h.goesOn i).disk := fun q => by rw [hnodes]
  refine ⟨⟨place, mode, ?_, hnodes ▸ hn⟩, (mem_bound_goesOn ht).2 (.inr hown)⟩
  rw [socket_goesOn ht]
  exact hends.congr hsame

theorem calm_of_shutdown (ht : h.tasks i = some (a, .shutdown)) (hh : h.Has a id) : h.Calm i := by
  refine calm_of_next ht ?_ fun next hnext => ?_
  · rintro ⟨place, node, hr, hnot⟩
    obtain ⟨⟨place', mode, hends, hn⟩, hown⟩ := hh
    cases hr.found.symm.trans (hends.find hn nofun)
    exact hnot id rfl hown
  · rw [Task.next_shutdown] at hnext
    cases hnext

theorem calm_of_finish (ht : h.tasks i = some (a, .finish id)) (hh : h.Has a id) : h.Calm i := by
  refine calm_of_next ht (fun hh => hh) fun next hnext htasks => ?_
  cases hnext
  exact calm_of_shutdown htasks (hh.goesOn ht (by rw [disk_goesOn ht]; rfl))

theorem calm_of_serve {service : Service} (ht : h.tasks i = some (a, .serve id service))
    (hh : h.Has a id) : h.Calm i := by
  refine calm_of_next ht (fun hh => hh) fun next hnext htasks => ?_
  rw [Task.next_serve] at hnext
  cases hnext
  exact calm_of_finish htasks (hh.goesOn ht (by rw [disk_goesOn ht, Task.disk_step]; rfl))

theorem disk_bind (ht : h.tasks i = some (a, .bind stage service?)) :
    (h.goesOn i).disk = (stage.step (h.socket a)).after h.disk := by
  rw [disk_goesOn ht, Task.after_bind]
  rfl

/-- The last step of a bind changes nothing about where the path ends. -/
theorem calm_of_protect (ht : h.tasks i = some (a, .bind (.protect id) service?))
    (hh : ∀ q, h.disk.find (h.socket a) = .ok q → h.Has a id) : h.Calm i := by
  refine calm_of_next ht (fun hh => hh) fun next hnext htasks => ?_
  obtain ⟨r, d', hrun, hr⟩ := Task.next_bind_eq_some hnext
  obtain ⟨u, hprotect, rfl⟩ := bind_pure_eq_ok.1 hrun
  cases service? with
  | none => cases hr
  | some service =>
    cases hr
    cases hf : h.disk.find (h.socket a) with
    | error e => cases hprotect.symm.trans (protectSocket_of_error hf id)
    | ok q =>
      obtain ⟨⟨place, mode, hends, hn⟩, hown⟩ := hh q hf
      have hdisk : (h.goesOn i).disk = h.disk.put place (.socket socketMode id) := by
        rw [disk_bind ht, Stage.after_step]
        exact after_of_ok (protectSocket_of_find (hends.find hn nofun) id)
      have hsame : SameDirectories h.disk (h.goesOn i).disk := by
        rw [hdisk]
        exact .put (by simp [hn]) nofun
      refine calm_of_serve htasks ⟨⟨place, socketMode, ?_, ?_⟩, (mem_bound_goesOn ht).2 (.inr hown)⟩
      · rw [socket_goesOn ht]
        exact hends.congr hsame
      · rw [hdisk]
        exact node?_put_self place _

theorem calm_of_listen (ht : h.tasks i = some (a, .bind .listen service?)) : h.Calm i := by
  refine calm_of_next ht (fun hh => hh) fun next hnext htasks => ?_
  obtain ⟨r, d', hrun, hr⟩ := Task.next_bind_eq_some hnext
  obtain ⟨id, hlisten, rfl⟩ := bind_pure_eq_ok.1 hrun
  replace hlisten : listen (h.socket a) h.disk = .ok id d' := onDisk_eq_ok.1 hlisten
  cases hr
  have hdisk : (h.goesOn i).disk = d' := by
    rw [disk_bind ht, Stage.after_step]
    exact after_of_ok hlisten
  have hown : id ∈ (h.goesOn i).bound a := by
    refine (mem_bound_goesOn ht).2 (.inl ⟨rfl, ?_⟩)
    show id ∈ ((listen (h.socket a)).outcome h.disk).toOption.toList
    rw [outcome_of_ok hlisten]
    exact List.mem_singleton.2 rfl
  refine calm_of_protect htasks fun q hq => ⟨?_, hown⟩
  rw [hdisk, socket_goesOn ht] at hq
  rw [hdisk, socket_goesOn ht]
  obtain ⟨rfl, ⟨hempty, -⟩ | ⟨place, hends, hn, rfl⟩⟩ := listen_eq_ok hlisten
  · obtain ⟨e, he⟩ := find_of_isEmpty (d := d') hempty
    cases hq.symm.trans he
  · have hsame : SameDirectories h.disk (h.disk.put place (.socket (newMode 0o777) h.disk.nextSocket)).heard :=
      SameDirectories.put (by simp [hn]) nofun
    exact ⟨place, newMode 0o777, hends.congr hsame, node?_put_self place _⟩

theorem calm_of_makeParents (ht : h.tasks i = some (a, .bind .makeParents service?)) : h.Calm i := by
  refine calm_of_next ht (fun hh => hh) fun next hnext htasks => ?_
  obtain ⟨r, d', hrun, hr⟩ := Task.next_bind_eq_some hnext
  obtain ⟨u, -, rfl⟩ := bind_pure_eq_ok.1 hrun
  cases hr
  exact calm_of_listen htasks

theorem calm_remove_iff (ht : h.tasks i = some (a, .bind .remove service?)) :
    h.Calm i ↔ ¬ h.Harms a (.bind .remove service?) := by
  refine ⟨fun hc => ((calm_iff ht).1 hc).1, fun hharm => ?_⟩
  refine calm_of_next ht hharm fun next hnext htasks => ?_
  obtain ⟨r, d', hrun, hr⟩ := Task.next_bind_eq_some hnext
  obtain ⟨u, -, rfl⟩ := bind_pure_eq_ok.1 hrun
  cases hr
  exact calm_of_makeParents htasks

/-! ## Looking and asking first -/

theorem after_looking (ht : h.tasks i = some (a, t)) (hlooks : t.Looks) :
    (h.goesOn i).disk = h.disk ∧ (h.goesOn i).socket a = h.socket a := by
  rw [disk_goesOn ht, Task.after_of_looks hlooks]
  exact ⟨rfl, socket_goesOn ht⟩

/-- Somebody listens on the socket at the path, and does not answer all the same: so a bind would remove
it. -/
def Hidden (d : Disk) (p : Path) : Prop :=
  ∃ place mode id, d.Removes p place (.socket mode id) ∧ id ∈ d.listening ∧ ¬ d.Admits p place mode

theorem harms_remove_iff (hf : h.disk.find (h.socket a) = .ok (place, .socket mode id))
    (hsilent : ¬ (id ∈ h.disk.listening ∧ h.disk.Admits (h.socket a) place mode)) :
    h.Harms a (.bind .remove service?) ↔ Hidden h.disk (h.socket a) := by
  constructor
  · rintro ⟨place', node, hr, hlistens⟩
    cases hf.symm.trans hr.found
    have hid := hlistens id rfl
    exact ⟨place, mode, id, hr, hid, fun hadmits => hsilent ⟨hid, hadmits⟩⟩
  · rintro ⟨place', mode', id', hr, hid, -⟩
    refine ⟨place', _, hr, fun id hsocket => ?_⟩
    cases hsocket
    exact hid

theorem calm_ask_iff (ht : h.tasks i = some (a, .bind .ask service?))
    (hf : h.disk.find (h.socket a) = .ok (place, .socket mode id)) :
    h.Calm i ↔ ¬ Hidden h.disk (h.socket a) := by
  obtain ⟨hdisk, hsocket⟩ := after_looking ht trivial
  have hask := askSocket_eq_ok (u := ()) hf
  by_cases hheard : id ∈ h.disk.listening ∧ h.disk.Admits (h.socket a) place mode
  · -- Somebody answers, and that is the end of the bind.
    refine iff_of_true (calm_of_next ht (fun hh => hh) fun next hnext _ => ?_) ?_
    · obtain ⟨r, d', hrun, -⟩ := Task.next_bind_eq_some hnext
      obtain ⟨u, hok, -⟩ := bind_pure_eq_ok.1 hrun
      obtain rfl : d' = h.disk := (after_of_ok hok).symm.trans (asks_askSocket _ _)
      exact absurd hheard (hask.1 hok)
    · rintro ⟨place', mode', id', hr, -, hno⟩
      cases hf.symm.trans hr.found
      exact hno hheard.2
  · have hstep : Stage.ask.step (h.world a).agent.socket (h.world a).disk = .ok (.inl .remove) h.disk :=
      bind_of_ok (hask.2 hheard)
    have htasks := tasks_goesOn ht
    rw [Task.next_bind_of_ok hstep] at htasks
    have hharm : ¬ h.Harms a (.bind .ask service?) := fun hh => hh
    rw [calm_iff ht, and_iff_right hharm, calm_remove_iff htasks, ← hdisk, ← hsocket]
    exact not_congr (harms_remove_iff (by rwa [hdisk, hsocket]) (by rwa [hdisk, hsocket]))

/-- A bind looks and asks before it removes anything, so it removes no live socket but one that is hidden. -/
theorem calm_find_iff (ht : h.tasks i = some (a, .bind .find service?)) :
    h.Calm i ↔ ¬ Hidden h.disk (h.socket a) := by
  obtain ⟨hdisk, hsocket⟩ := after_looking ht trivial
  by_cases hfound : ∃ place mode id, h.disk.find (h.socket a) = .ok (place, .socket mode id)
  · obtain ⟨place, mode, id, hf⟩ := hfound
    have hstep : Stage.find.step (h.world a).agent.socket (h.world a).disk = .ok (.inl .ask) h.disk :=
      bind_of_ok (findSocket_of_socket hf)
    have htasks := tasks_goesOn ht
    rw [Task.next_bind_of_ok hstep] at htasks
    have hharm : ¬ h.Harms a (.bind .find service?) := fun hh => hh
    rw [calm_iff ht, and_iff_right hharm, ← hdisk, ← hsocket]
    exact calm_ask_iff htasks (by rwa [hdisk, hsocket])
  · refine iff_of_true (calm_of_next ht (fun hh => hh) fun next hnext htasks => ?_) ?_
    · obtain ⟨r, d', hrun, hr⟩ := Task.next_bind_eq_some hnext
      obtain ⟨found, hfind, rfl⟩ := bind_pure_eq_ok.1 hrun
      cases found with
      | true => exact absurd (findSocket_eq_true hfind) hfound
      | false =>
        cases hr
        exact calm_of_makeParents htasks
    · rintro ⟨place, mode, id, hr, -⟩
      exact hfound ⟨place, mode, id, hr.found⟩

theorem calm_begins_iff (h : Host) (i a : Nat) {deed : Deed} (hd : deed.Binds) :
    (h.begins i a deed).Calm i ↔ ¬ Hidden h.disk (h.socket a) := by
  have htask : (h.begins i a deed).tasks i = some (a, deed.task) := by simp [begins]
  cases deed with
  | bind | run => exact calm_find_iff htask
  | drop | shutdown => cases hd

end Host

open Host (Throughout Hidden)

/-- However the steps of calls and other programs take turns, every step spares what is there exactly if
none does harm. A bind or a run that nobody gets into the midst of does harm exactly if the path leads to
a live socket that is hidden. A step that fails takes nothing away and adds no more than directories; a
bind is refused for what is at the path only by steps that change nothing. -/
theorem throughout_spares_iff (agents : Nat → Agent) (disk : Disk) (calls : List VaultCall)
    (events : List HostEvent) :
    (Throughout Host.Spares (.start agents disk calls) events ↔
      Throughout (fun h a t => ¬ h.Harms a t) (.start agents disk calls) events) ∧
    (∀ (h : Host) i a deed, deed.Binds →
      ((h.begins i a deed).Calm i ↔ ¬ Hidden h.disk (h.socket a))) ∧
    (∀ (t : Task) w, t.Looks → t.step.after w = w) ∧
    (∀ (t : Task) w e w', t.step w = .error e w' → Grows w.disk w'.disk ∧
      ∀ socket fault, e = .bind socket fault → fault = .taken ∨ fault = .notSocket → t.Looks) ∧
    ∀ w socket fault, bind.outcome w = .error (.bind socket fault) →
      (fault = .taken ∨ fault = .notSocket → (bind.after w).disk = w.disk) ∧
      ∀ place node, (bind.after w).disk.node? place = some node →
        node = .directory ∨ w.disk.node? place = some node := by
  refine ⟨Host.throughout_iff (.start agents disk calls) events,
    fun h i a deed hd => h.calm_begins_iff i a hd, fun t w ht => Task.after_of_looks ht w,
    fun t w e w' h => Task.grows_of_error h, fun w socket fault h => ?_⟩
  obtain ⟨fault', d', hrun, hfault, hw⟩ := forSocket_eq_error.1 (outcome_eq_error.1 h)
  have hafter : bind.after w = { w with disk := d' } := hw
  cases hfault
  rw [hafter]
  exact unchanged_of_error hrun

/-- An agent without keys. -/
def plainAgent : Agent :=
  .new ⟨⟨"agent_storage.json"⟩, .empty⟩ ⟨"agent.sock"⟩

/-- A call all steps of which are taken one right after the other. -/
def undisturbed (i a : Nat) (deed : Deed) : List HostEvent :=
  .begins i a deed :: List.replicate 6 (.goesOn i)

/-- A disk with a file at the socket path. -/
def withFile : Disk :=
  Disk.empty.put ["agent.sock"] (.file 0o644 [0x68, 0x69])

/-- The first agent binds and stops listening, and the second takes its place. -/
def takingOver : List HostEvent :=
  undisturbed 0 0 .bind ++ undisturbed 0 0 (.drop 0) ++ undisturbed 1 1 .bind

/-- The second agent may then shut down. A bind that a file is in the way of leaves the file. -/
theorem throughout_spares_of_takeover :
    Throughout Host.Spares (.start (fun _ => plainAgent) .empty [])
      (takingOver ++ undisturbed 1 1 .shutdown) ∧
    bind.outcome ⟨plainAgent, withFile, []⟩ = .error (.bind plainAgent.socket .notSocket) ∧
    (bind.after ⟨plainAgent, withFile, []⟩).disk = withFile := by
  obtain ⟨hspares, -, -, -, hleft⟩ := throughout_spares_iff (fun _ => plainAgent) .empty []
    (takingOver ++ undisturbed 1 1 .shutdown)
  have hrefused : bind.outcome ⟨plainAgent, withFile, []⟩ =
    .error (.bind plainAgent.socket .notSocket) := rfl
  exact ⟨hspares.2 (by decide +kernel), hrefused, (hleft _ _ _ hrefused).1 (.inr rfl)⟩

/-- A disk with a socket at the socket path on which somebody listens. -/
def withSocketOf (mode : Nat) : Disk :=
  { Disk.empty.put ["agent.sock"] (.socket mode 0) with listening := [0], nextSocket := 1 }

/-- A path to the same place as that of the plain agent, too long to connect to. -/
def longPath : String :=
  String.join (List.replicate 50 "./") ++ "agent.sock"

/-- A shutdown takes away a file for which a bind has been refused, and the socket that another agent
listens on. A bind takes away a live socket that its owner may not write to, one at a path that is too
long, and a file that has come into the place of a dead socket since the bind has looked. -/
theorem deeds_take_away :
    ¬ Throughout Host.Spares (.start (fun _ => plainAgent) withFile [])
      (undisturbed 0 0 .bind ++ undisturbed 0 0 .shutdown) ∧
    ¬ Throughout Host.Spares (.start (fun _ => plainAgent) .empty [])
      (takingOver ++ undisturbed 0 0 .shutdown) ∧
    ¬ Throughout Host.Spares (.start (fun _ => plainAgent) (withSocketOf 0o400) [])
      (undisturbed 0 0 .bind) ∧
    ¬ Throughout Host.Spares (.start (fun _ => { plainAgent with socket := ⟨longPath⟩ })
      (withSocketOf 0o600) []) (undisturbed 0 0 .bind) ∧
    ¬ Throughout Host.Spares (.start (fun _ => plainAgent) ((withSocketOf 0o600).close 0) [])
      [.begins 0 0 .bind, .goesOn 0, .goesOn 0, .others withFile, .goesOn 0] := by
  simp only [Host.throughout_iff (.start _ _ _)]
  decide +kernel

end VaultAgent.Agent
