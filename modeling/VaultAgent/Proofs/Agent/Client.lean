import VaultAgent.Proofs.Agent.World
import VaultAgent.Proofs.Protocol.Session
import VaultAgent.Proofs.Signer
import VaultAgent.Agent.Socket

/-!
# What a client leaves of an agent

A client reaches an agent through its keyring alone. Of that it leaves the slots whose keys are spared
by the requests that its connection decodes, each as it was, whatever the vault answers and whenever
the requests are answered (`client_leaves_spared`). Which requests are decoded may hang on the pieces
in which the bytes come.
-/

namespace VaultAgent.Agent

open VaultAgent.Action
open Protocol (Course Decodes Ending Input Request Spared)

variable {w : World}

theorem keyring_serveClientAlong (course : Course) (vault : Vault) (input : Input) :
    ((serveClientAlong course vault input).after w).agent.keyring =
      (Protocol.serveAlong course vault input ⟨w.agent.keyring, w.calls⟩).session.keyring :=
  rfl

theorem keeps_serveClientAlong {course : Course} {input : Input} {requests : List Request}
    {ending : Ending} (hd : Decodes course.sends [] input requests ending)
    (hi : w.agent.keyring.Indexed) (hw : w.agent.keyring.poisoned = false) (vault : Vault) :
    w.agent.keyring.Keeps ((serveClientAlong course vault input).after w).agent.keyring
      fun slot => Spared requests slot.entry.key := by
  rw [keyring_serveClientAlong]
  exact hd.keeps (s := ⟨w.agent.keyring, w.calls⟩) hi hw

/-- Whatever a client sends, and in whatever pieces it comes, it leaves just the slots whose keys no
decoded request removes, and all else as it was. What is left does not depend on the vault, nor on when
the requests are answered. -/
theorem client_leaves_spared (hi : w.agent.keyring.Indexed) (hw : w.agent.keyring.poisoned = false)
    (course : Course) (vault : Vault) (input : Input) : ∃ requests ending,
      (∀ requests' ending', Decodes course.sends [] input requests' ending' ↔
        requests' = requests ∧ ending' = ending) ∧
      ∃ output w', serveClientAlong course vault input w = .ok (output, ending) w' ∧
        w'.disk = w.disk ∧ w'.agent = { w.agent with keyring := w'.agent.keyring } ∧
        w.agent.keyring.Keeps w'.agent.keyring (fun slot => Spared requests slot.entry.key) ∧
        ∀ clock vault', ((serveClientAlong ⟨clock, course.sends⟩ vault' input).after w).agent.keyring =
          w'.agent.keyring := by
  obtain ⟨requests, ending, hd⟩ := Protocol.exists_decodes course.sends [] input
  have hkeep := keeps_serveClientAlong hd hi hw vault
  have hend := (Protocol.serveAlong_of_decodes hd vault ⟨w.agent.keyring, w.calls⟩).1
  have hrun : serveClientAlong course vault input w =
      .ok ((Protocol.serveAlong course vault input ⟨w.agent.keyring, w.calls⟩).output, ending)
        ((serveClientAlong course vault input).after w) := by
    rw [← hend]
    rfl
  refine ⟨requests, ending, fun requests' ending' => ?_, _, _, hrun, rfl, rfl, hkeep, ?_⟩
  · constructor
    · exact fun hd' => hd'.unique hd
    · rintro ⟨rfl, rfl⟩
      exact hd
  · intro clock vault'
    have hd' : Decodes (⟨clock, course.sends⟩ : Course).sends [] input requests ending := hd
    exact (keeps_serveClientAlong hd' hi hw vault').unique hkeep

/-- An agent that serves two keys. -/
def servesTwo : World :=
  (World.fresh .empty).withKeyring
    ((Keyring.empty.withEntry (Keyring.plainEntry 1 "a" none)).withEntry
      (Keyring.plainEntry 2 "b" none))

/-- A request for a smart card comes alone: the pieces that follow are one to remove the first key, cut
in two, and half of one to remove all. -/
def removesOne : Input where
  pieces :=
    let removal := Ssh.block (18 :: Ssh.block (Keyring.plainKey 1).toBytes)
    [[0, 0, 0, 9, 26, 0, 0, 0, 0, 0, 0, 0, 0], removal.take 3, removal.drop 3 ++ [0, 0, 0, 1]]
  ends := true

/-- All in one piece, the first of them is no request, since it is read to the end of what has come. -/
example : Protocol.arrival removesOne.pieces.flatten = .fault (.key .unknownAlgorithm) := by
  decide +kernel

theorem decodes_removesOne : Decodes (Course.prompt 0).sends [] removesOne
    [.addConstrainedCard "" "", .remove (Keyring.plainKey 1)] .bytesRemaining := by
  have hcard : Protocol.arrival [0, 0, 0, 9, 26, 0, 0, 0, 0, 0, 0, 0, 0] =
      .request (.addConstrainedCard "" "") [] := by decide +kernel
  have hremoval : Protocol.arrival (Ssh.block (18 :: Ssh.block (Keyring.plainKey 1).toBytes) ++
      [0, 0, 0, 1]) = .request (.remove (Keyring.plainKey 1)) [0, 0, 0, 1] := by
    decide +kernel
  refine .piece (by decide) (.request hcard rfl (.piece (by decide) (.piece (by decide) ?_)))
  exact .request hremoval rfl (.silence (by decide))

theorem client_leaves_spared_of_one_removal : servesTwo.agent.keyring.Indexed ∧
    servesTwo.agent.keyring.poisoned = false ∧ ∃ output w',
      serveClientAlong (.prompt 0) (.signing []) removesOne servesTwo =
        .ok (output, .bytesRemaining) w' ∧
      w'.disk = servesTwo.disk ∧
      w'.agent = { servesTwo.agent with keyring := w'.agent.keyring } ∧
      servesTwo.agent.keyring.Keeps w'.agent.keyring (fun slot =>
        Spared [.addConstrainedCard "" "", .remove (Keyring.plainKey 1)] slot.entry.key) ∧
      ∀ clock vault', ((serveClientAlong ⟨clock, (Course.prompt 0).sends⟩ vault' removesOne).after
        servesTwo).agent.keyring = w'.agent.keyring := by
  have hsteady : servesTwo.agent.keyring.Steady := (Keyring.Steady.empty.withEntry _).withEntry _
  generalize servesTwo = w at hsteady ⊢
  obtain ⟨requests, ending, hd, h⟩ := client_leaves_spared hsteady.isIndexed hsteady.whole
    (.prompt 0) (.signing []) removesOne
  obtain ⟨rfl, rfl⟩ := (hd _ _).1 decodes_removesOne
  exact ⟨hsteady.isIndexed, hsteady.whole, h⟩

end VaultAgent.Agent
