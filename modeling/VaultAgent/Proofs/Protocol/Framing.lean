import VaultAgent.Proofs.Keyring
import VaultAgent.Proofs.Protocol.Requests
import VaultAgent.Proofs.Protocol.Responses
import VaultAgent.Proofs.Signer
import VaultAgent.Proofs.Ssh.Reading

/-!
# Requests one behind the other

A basic request is read from its frame in the same way whatever comes behind the frame
(`arrival_append`), though the codec reads from all that has come, and not before the frame is all there
(`arrival_eq_incomplete_of_part`). So in whatever pieces the bytes come, a connection decodes just the
requests whose frames were sent (`readsSent`). Each is answered once and in order, the client reads
these answers, and what follows the frames is not answered if it is no request (`answers_sent`).
-/

namespace VaultAgent.Protocol

open VaultAgent.Action
open Ssh (Settles)

variable {bytes more rest : List UInt8} {r : Request}

/-- The requests to list, to use and to drop keys, and to lock. -/
def Request.IsBasic : Request → Prop
  | .identities | .sign .. | .remove _ | .removeAll | .lock _ | .unlock _ => True
  | _ => False

/-! ## Reading a basic request -/

theorem settles_reading {α : Type} {depth : Nat} {value : Ssh.Decoder α} (h : Settles depth value)
    (cause : Ssh.WireError → Fault) : Settles depth (reading cause value) := by
  intro left limits a r hn hrun
  unfold reading at hrun ⊢
  cases hv : value ⟨.plain left, limits⟩ with
  | error e => rw [hv] at hrun; cases hrun
  | ok p =>
    rw [hv] at hrun
    cases hrun
    obtain ⟨left', limits', rfl, hlen, hmore⟩ := h hn hv
    refine ⟨left', limits', rfl, hlen, fun more => ?_⟩
    rw [hmore more]
    rfl

theorem settles_field {α : Type} {depth : Nat} {value : Ssh.Decoder α} (h : Settles depth value) :
    Settles depth (field value) :=
  settles_reading h _

theorem settles_key : Settles 0 key :=
  settles_reading (Ssh.Decoder.settles_within Ssh.Decoder.settles_publicKey) _

/-- All that the decoder can give passes a test. -/
def Gives {α : Type} (p : α → Prop) (d : RequestDecoder α) : Prop :=
  ∀ ⦃r a r'⦄, d r = .ok (a, r') → p a

namespace Gives

variable {α β : Type} {p : β → Prop}

theorem pure {b : β} (h : p b) : Gives p (pure b) := by
  intro r b' r' hrun
  cases hrun
  exact h

theorem throw (f : Fault) : Gives p (throw f) := by
  intro r b r' hrun
  cases hrun

theorem bind {d : RequestDecoder α} {f : α → RequestDecoder β} (h : ∀ a, Gives p (f a)) :
    Gives p (d >>= f) := by
  intro r b r' hrun
  obtain ⟨⟨a, r⟩, -, hf⟩ := except_bind_eq_ok.1 hrun
  exact h a hf

end Gives

theorem request_append {left : List UInt8} {reader : Ssh.Reader}
    (h : request ⟨.plain left, []⟩ = .ok (r, reader)) (hr : r.IsBasic) (more : List UInt8) :
    ∃ reader', request ⟨.plain (left ++ more), []⟩ = .ok (r, reader') := by
  obtain ⟨⟨kind, reader⟩, hkind, hfields⟩ := except_bind_eq_ok.1 h
  obtain ⟨left', limits, rfl, -, hkind⟩ :=
    settles_field (Ssh.Decoder.settles_number 1) (Nat.zero_le _) hkind
  have hread {d : RequestDecoder Request} (hd : Settles 0 d)
      (hrun : d ⟨.plain left', limits⟩ = .ok (r, reader)) :
      ∃ reader', d ⟨.plain (left' ++ more), limits⟩ = .ok (r, reader') := by
    obtain ⟨left'', limits', -, -, hmore⟩ := hd (Nat.zero_le _) hrun
    exact ⟨_, hmore more⟩
  have hother {d : RequestDecoder Request} {q : Prop} (hd : Gives (¬ ·.IsBasic) d)
      (hrun : d ⟨.plain left', limits⟩ = .ok (r, reader)) : q := absurd hr (hd hrun)
  have hblock : Settles 0 (field Ssh.Decoder.block) := settles_field Ssh.Decoder.settles_block
  have hflags : Settles 0 (field (Ssh.Decoder.number 4)) :=
    settles_field (Ssh.Decoder.settles_number 4)
  have htext : Settles 0 (field Ssh.Decoder.text) := settles_field Ssh.Decoder.settles_text
  suffices hsuff : ∃ reader', _ from
    hsuff.imp fun reader' hf => except_bind_eq_ok.2 ⟨_, hkind more, hf⟩
  -- A basic request is read by its kind. The other kinds give no basic request.
  dsimp only at hfields ⊢
  split at hfields
  case h_1 => exact hread (.pure _) hfields
  case h_2 =>
    refine hread (settles_key.bind fun _ => hblock.bind fun _ => ?_) hfields
    exact hflags.bind fun _ => .pure _
  case h_3 => exact hother (.bind fun _ => .pure id) hfields
  case h_4 => exact hread (settles_key.bind fun _ => .pure _) hfields
  case h_5 => exact hread (.pure _) hfields
  case h_6 => exact hother (.bind fun _ => .bind fun _ => .pure id) hfields
  case h_7 => exact hother (.bind fun _ => .bind fun _ => .pure id) hfields
  case h_8 => exact hread (htext.bind fun _ => .pure _) hfields
  case h_9 => exact hread (htext.bind fun _ => .pure _) hfields
  case h_10 => exact hother (.bind fun _ => .bind fun _ => .pure id) hfields
  case h_11 => exact hother (.bind fun _ => .bind fun _ => .bind fun _ => .pure id) hfields
  case h_12 => exact hother (.bind fun _ => .bind fun _ => .pure id) hfields
  case h_13 => exact hother (.throw _) hfields

theorem ofBytes_eq_ok : Request.ofBytes bytes = .ok r ↔
    ∃ reader, request ⟨.plain bytes, []⟩ = .ok (r, reader) := by
  show (·.1) <$> request ⟨.plain bytes, []⟩ = _ ↔ _
  cases request ⟨.plain bytes, []⟩ with
  | error f => simp [Functor.map, Except.map]
  | ok p => simp [Functor.map, Except.map, Prod.ext_iff]

/-- What comes behind the frame of a basic request is left as it is. -/
theorem arrival_append (h : arrival bytes = .request r rest) (hr : r.IsBasic)
    (more : List UInt8) : arrival (bytes ++ more) = .request r (rest ++ more) := by
  obtain ⟨hle, hread, rfl⟩ := arrival_eq_request.1 h
  have hheader : headerLength ≤ bytes.length := Nat.le_trans (Nat.le_add_right _ _) hle
  have htake : (bytes ++ more).take headerLength = bytes.take headerLength :=
    List.take_append_of_le_length hheader
  rw [arrival_eq_request, htake, List.drop_append_of_le_length hheader,
    List.drop_append_of_le_length hle, List.length_append]
  refine ⟨Nat.le_trans hle (Nat.le_add_right _ _), ?_, rfl⟩
  obtain ⟨reader, hrun⟩ := ofBytes_eq_ok.1 hread
  exact ofBytes_eq_ok.2 (request_append hrun hr more)

/-! ## Requests sent one behind the other -/

/-- A frame of a basic request, with nothing behind it. -/
def IsFrameOf (r : Request) (frame : List UInt8) : Prop :=
  r.IsBasic ∧ arrival frame = .request r []

variable {sends : Nat → Bool} {sent : List (Request × List UInt8)} {trailing : List UInt8}

/-- A part of a frame that is not all of it is waited on. -/
theorem arrival_eq_incomplete_of_part {frame part : List UInt8} (h : arrival frame = .request r [])
    (hp : part <+: frame) (hne : part ≠ frame) : arrival part = .incomplete := by
  obtain ⟨hle, -, hdrop⟩ := arrival_eq_request.1 h
  obtain ⟨more, rfl⟩ := hp
  have hmore : more ≠ [] := fun hm => hne (by rw [hm, List.append_nil])
  have hpos := List.length_pos_iff.2 hmore
  have hlength : (part ++ more).length =
      headerLength + beValue ((part ++ more).take headerLength) :=
    Nat.le_antisymm (List.drop_eq_nil_iff.1 hdrop) hle
  rw [List.length_append] at hlength
  refine if_pos ?_
  by_cases hheader : part.length < headerLength
  · omega
  · rw [List.take_append_of_le_length (Nat.not_lt.1 hheader)] at hlength
    omega

/-- Bytes that are no whole frame are not read as a request in parts either. -/
theorem arrival_ne_request_of_incomplete {part : List UInt8} (h : arrival trailing = .incomplete)
    (hp : part <+: trailing) : arrival part ≠ .request r rest := by
  obtain ⟨more, rfl⟩ := hp
  intro hr
  obtain ⟨hle, -, -⟩ := arrival_eq_request.1 hr
  have hheader : headerLength ≤ part.length := Nat.le_trans (Nat.le_add_right _ _) hle
  have hnot : ¬ (part ++ more).length <
      headerLength + beValue ((part ++ more).take headerLength) := by
    rw [List.take_append_of_le_length hheader, List.length_append]
    omega
  rw [arrival, if_neg hnot] at h
  cases hof : Request.ofBytes ((part ++ more).drop headerLength) <;> simp [hof] at h

/-- Whenever a piece has come, what there is of the bytes behind the frames is no request. -/
def Input.Rejects (input : Input) (frames : List UInt8) : Prop :=
  ∀ come, come <+: input.pieces → ∀ part, come.flatten = frames ++ part →
    ∀ r rest, arrival part ≠ .request r rest

theorem rejects_of_incomplete {input : Input} {frames : List UInt8}
    (h : arrival trailing = .incomplete) (hb : input.pieces.flatten = frames ++ trailing) :
    input.Rejects frames := by
  rintro come ⟨later, hp⟩ part hpart r rest
  refine arrival_ne_request_of_incomplete h ⟨later.flatten, ?_⟩
  rw [← hp, List.flatten_append, hpart, List.append_assoc] at hb
  exact List.append_cancel_left hb

/-- The frames that are yet to be read begin in the buffer, and the rest of them and the trailing bytes
are in the pieces. -/
structure Ahead (bytes : List UInt8) (pieces : List (List UInt8)) (sent : List (Request × List UInt8))
    (trailing : List UInt8) : Prop where
  frames : ∀ p ∈ sent, IsFrameOf p.1 p.2
  all : bytes ++ pieces.flatten = sent.flatMap (·.2) ++ trailing
  rejects : ∀ come, come <+: pieces → ∀ part, bytes ++ come.flatten = sent.flatMap (·.2) ++ part →
    ∀ r rest, arrival part ≠ .request r rest

namespace Ahead

variable {piece frame : List UInt8} {pieces : List (List UInt8)}

theorem takeIn (h : Ahead bytes (piece :: pieces) sent trailing) :
    Ahead (bytes ++ piece) pieces sent trailing where
  frames := h.frames
  all := by rw [← h.all, List.flatten_cons, List.append_assoc]
  rejects come hcome part hpart := by
    refine h.rejects (piece :: come) (List.cons_prefix_cons.2 ⟨rfl, hcome⟩) part ?_
    rw [← hpart, List.flatten_cons, List.append_assoc]

theorem takeOff (h : Ahead (frame ++ bytes) pieces ((r, frame) :: sent) trailing) :
    Ahead bytes pieces sent trailing where
  frames := (List.forall_mem_cons.1 h.frames).2
  all := by
    have hall := h.all
    simp only [List.flatMap_cons, List.append_assoc] at hall
    exact List.append_cancel_left hall
  rejects come hcome part hpart := by
    refine h.rejects come hcome part ?_
    simp only [List.flatMap_cons, List.append_assoc, hpart]

/-- The next frame is all there, or is waited for; or only trailing bytes are left. -/
theorem next (h : Ahead bytes pieces sent trailing) :
    (∃ r frame sent' bytes', sent = (r, frame) :: sent' ∧ bytes = frame ++ bytes') ∨
      (arrival bytes = .incomplete ∧ (pieces = [] → sent = [] ∧ bytes = trailing)) ∨
      (∃ f, arrival bytes = .fault f ∧ sent = []) := by
  cases sent with
  | nil =>
    have hnot := h.rejects [] List.nil_prefix bytes (by simp)
    cases ha : arrival bytes with
    | incomplete =>
      refine .inr (.inl ⟨rfl, fun hp => ⟨rfl, ?_⟩⟩)
      simpa [hp] using h.all
    | request r rest => exact absurd ha (hnot r rest)
    | fault f => exact .inr (.inr ⟨f, rfl, rfl⟩)
  | cons p sent =>
    obtain ⟨r, frame⟩ := p
    have hframe := (h.frames _ List.mem_cons_self).2
    have hall := h.all
    simp only [List.flatMap_cons, List.append_assoc] at hall
    by_cases hp : frame <+: bytes
    · obtain ⟨bytes', hb⟩ := hp
      exact .inl ⟨r, frame, sent, bytes', rfl, hb.symm⟩
    · have hle : bytes <+: frame :=
        (List.prefix_or_prefix_of_prefix ⟨_, hall⟩ (List.prefix_append _ _)).resolve_right hp
      have hne : bytes ≠ frame := fun heq => hp (heq ▸ List.prefix_rfl)
      refine .inr (.inl ⟨arrival_eq_incomplete_of_part hframe hle hne, fun hnil => ?_⟩)
      rw [hnil, List.flatten_nil, List.append_nil] at hall
      exact absurd ⟨_, hall.symm⟩ hp

end Ahead

/-- The connection reads the requests that were sent, and ends without an error just if nothing trails
behind them. -/
def ReadsSent (sends : Nat → Bool) (bytes : List UInt8) (pieces : List (List UInt8))
    (sent : List (Request × List UInt8)) (trailing : List UInt8) : Prop :=
  ∃ e, Decodes sends bytes ⟨pieces, true⟩ (sent.map (·.1)) e ∧ e ≠ .broken ∧
    (e.message? = none ↔ trailing = [])

/-- All frames in the buffer are read before more is waited for. -/
theorem readsSent_of_incomplete {pieces : List (List UInt8)}
    (hwait : ∀ sends bytes sent, (∀ i, sends i = true) → Ahead bytes pieces sent trailing →
      arrival bytes = .incomplete → (pieces = [] → sent = [] ∧ bytes = trailing) →
      ReadsSent sends bytes pieces sent trailing)
    (hs : ∀ i, sends i = true) (h : Ahead bytes pieces sent trailing) :
    ReadsSent sends bytes pieces sent trailing := by
  induction sent generalizing bytes sends with
  | nil =>
    rcases h.next with ⟨_, _, _, _, hsent, -⟩ | ⟨ha, hnil⟩ | ⟨f, ha, -⟩
    · cases hsent
    · exact hwait sends bytes [] hs h ha hnil
    · have hne : trailing ≠ [] := by
        rintro rfl
        obtain ⟨rfl, -⟩ := List.append_eq_nil_iff.1 (h.all.trans (by simp))
        rw [arrival_nil] at ha
        cases ha
      exact ⟨.fault f, .fault ha, nofun, iff_of_false nofun hne⟩
  | cons p sent ih =>
    rcases h.next with ⟨r, frame, sent', bytes', hsent, rfl⟩ | ⟨ha, hnil⟩ | ⟨f, -, hsent⟩
    · obtain ⟨rfl, rfl⟩ := List.cons.inj hsent
      obtain ⟨hbasic, hframe⟩ := h.frames _ List.mem_cons_self
      obtain ⟨e, hd, he⟩ := ih (fun i => hs (i + 1)) h.takeOff
      exact ⟨e, .request (arrival_append hframe hbasic bytes') (hs 0) hd, he⟩
    · exact hwait sends bytes (p :: sent) hs h ha hnil
    · cases hsent

/-- However the frames are cut into pieces, the requests are read from them. -/
theorem readsSent {pieces : List (List UInt8)} (hs : ∀ i, sends i = true)
    (h : Ahead bytes pieces sent trailing) : ReadsSent sends bytes pieces sent trailing := by
  induction pieces generalizing sends bytes sent with
  | nil =>
    refine readsSent_of_incomplete (fun sends bytes sent hs h ha hnil => ?_) hs h
    obtain ⟨rfl, rfl⟩ := hnil rfl
    refine ⟨_, .silence ha, ?_, ?_⟩
    · by_cases hb : bytes = [] <;> simp [Ending.ofSilence, hb]
    · by_cases hb : bytes = [] <;> simp [Ending.ofSilence, Ending.message?, hb]
  | cons piece pieces ih =>
    refine readsSent_of_incomplete (fun sends bytes sent hs h ha _ => ?_) hs h
    obtain ⟨e, hd, he⟩ := ih hs h.takeIn
    exact ⟨e, .piece ha hd, he⟩

/-- In whatever pieces they come, each request that was sent is answered once, in order, in the session
that those before it left, and nothing else is; the client reads just these answers. What the requests
leave stays, also if the connection ends in an error. -/
theorem answers_sent {course : Course} {input : Input} (hs : ∀ i, course.sends i = true)
    (hends : input.ends = true) (hsent : ∀ p ∈ sent, IsFrameOf p.1 p.2)
    (hinput : input.pieces.flatten = sent.flatMap (·.2) ++ trailing)
    (ht : arrival trailing = .incomplete ∨ input.Rejects (sent.flatMap (·.2))) (vault : Vault)
    (s : Session) : ∃ (answers : List Response) (served : Served),
      serveAlong course vault input s = served ∧
      served.output = answers.flatMap Response.frame ∧
      ((∀ a ∈ answers, a.Fits) → Tells served.output (answers.map Response.told)) ∧
      answers.length = sent.length ∧
      (∀ (i : Nat) r frame, sent[i]? = some (r, frame) → answers[i]? =
        some ((s.respondAll vault course.clock ((sent.take i).map (·.1))).2.respond
          (course.clock i) vault r).1) ∧
      served.session = (s.respondAll vault course.clock (sent.map (·.1))).2 ∧
      (served.ending.message? = none ↔ trailing = []) := by
  obtain ⟨pieces, ends⟩ := input
  obtain rfl : ends = true := hends
  have hrejects : Input.Rejects ⟨pieces, true⟩ (sent.flatMap (·.2)) :=
    ht.elim (rejects_of_incomplete · hinput) id
  have hahead : Ahead [] pieces sent trailing :=
    ⟨hsent, by simpa using hinput, fun come hcome part hpart => hrejects come hcome part hpart⟩
  obtain ⟨e, hd, hne, hclosed⟩ := readsSent hs hahead
  obtain ⟨hending, hsession, hout⟩ := serveAlong_of_decodes hd vault s
  refine ⟨(s.respondAll vault course.clock (sent.map (·.1))).1, _, rfl, hout hne, fun hfits => ?_, ?_,
    ?_, hsession, hending ▸ hclosed⟩
  · rw [hout hne]
    exact tells_frames hfits
  · rw [Session.length_respondAll, List.length_map]
  · intro i r frame hi
    have hi' : (sent.map (·.1))[i]? = some r := by rw [List.getElem?_map, hi]; rfl
    rw [Session.answer_at hi', ← List.map_take]

/-- A session with a key in it. -/
def servesOne : Session :=
  ⟨Keyring.empty.withEntry (Keyring.plainEntry 1 "a" none), []⟩

/-- A request to sign that fails and two others that do not, each with its frame. -/
def pipelined : List (Request × List UInt8) :=
  [(.sign (Keyring.plainKey 2) [7] 0,
      Ssh.block (13 :: Ssh.block (Keyring.plainKey 2).toBytes ++ Ssh.block [7] ++ Ssh.word 0)),
    (.removeAll, [0, 0, 0, 1, 19]), (.identities, [0, 0, 0, 1, 11])]

/-- Their frames in two pieces, of which the first ends inside of one, and a frame of an unknown kind. -/
def inTwoPieces : Input where
  pieces :=
    let frames := pipelined.flatMap (·.2)
    [frames.take 7, frames.drop 7 ++ [0, 0, 0, 1, 9]]
  ends := true

theorem isFrameOf_pipelined : ∀ p ∈ pipelined, IsFrameOf p.1 p.2 := by
  intro p hp
  simp only [pipelined, List.mem_cons, List.not_mem_nil, or_false] at hp
  rcases hp with rfl | rfl | rfl
  · exact ⟨trivial, by decide +kernel⟩
  · exact ⟨trivial, by decide +kernel⟩
  · exact ⟨trivial, by decide +kernel⟩

theorem arrival_unknown_kind : arrival [0, 0, 0, 1, 9] = .fault (.unsupported 9) := by
  decide +kernel

theorem rejects_inTwoPieces : inTwoPieces.Rejects (pipelined.flatMap (·.2)) := by
  have hlong : 7 < (pipelined.flatMap (·.2)).length := by decide +kernel
  have hshort {come part : List UInt8} (h : come = pipelined.flatMap (·.2) ++ part) :
      7 < come.length := by
    rw [h, List.length_append]
    omega
  intro come hcome part hpart r rest
  rcases List.prefix_cons_iff.1 hcome with rfl | ⟨come', rfl, hcome'⟩
  · exact absurd (hshort hpart) (by simp)
  rcases List.prefix_cons_iff.1 hcome' with rfl | ⟨come'', rfl, hcome''⟩
  · exact absurd (hshort hpart) (by simp)
  -- Everything has come, and behind the frames there is the unknown kind.
  obtain rfl := List.prefix_nil.1 hcome''
  have hall : pipelined.flatMap (·.2) ++ [0, 0, 0, 1, 9] = pipelined.flatMap (·.2) ++ part := by
    simpa [← List.append_assoc] using hpart
  obtain rfl := List.append_cancel_left hall
  rw [arrival_unknown_kind]
  exact nofun

theorem answers_sent_of_unknown_kind : (∀ i, (Course.prompt 0).sends i = true) ∧
    inTwoPieces.ends = true ∧ (∀ p ∈ pipelined, IsFrameOf p.1 p.2) ∧
    inTwoPieces.pieces.flatten = pipelined.flatMap (·.2) ++ [0, 0, 0, 1, 9] ∧
    (arrival [0, 0, 0, 1, 9] = .incomplete ∨ inTwoPieces.Rejects (pipelined.flatMap (·.2))) ∧
    ∃ (answers : List Response) (served : Served),
      serveAlong (.prompt 0) (.signing []) inTwoPieces servesOne = served ∧
      served.output = answers.flatMap Response.frame ∧
      ((∀ a ∈ answers, a.Fits) → Tells served.output (answers.map Response.told)) ∧
      answers.length = pipelined.length ∧
      (∀ (i : Nat) r frame, pipelined[i]? = some (r, frame) → answers[i]? =
        some ((servesOne.respondAll (.signing []) (Course.prompt 0).clock
          ((pipelined.take i).map (·.1))).2.respond ((Course.prompt 0).clock i) (.signing []) r).1) ∧
      served.session = (servesOne.respondAll (.signing []) (Course.prompt 0).clock
        (pipelined.map (·.1))).2 ∧
      (served.ending.message? = none ↔ ([0, 0, 0, 1, 9] : List UInt8) = []) := by
  have hs : ∀ i, (Course.prompt 0).sends i = true := fun _ => rfl
  have hinput : inTwoPieces.pieces.flatten = pipelined.flatMap (·.2) ++ [0, 0, 0, 1, 9] := by
    decide +kernel
  have hrejects := rejects_inTwoPieces
  exact ⟨hs, rfl, isFrameOf_pipelined, hinput, .inr hrejects,
    answers_sent hs rfl isFrameOf_pipelined hinput (.inr hrejects) _ _⟩

end VaultAgent.Protocol
