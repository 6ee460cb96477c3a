import Xltop.Http.Reading
import Xltop.Http.Header

/-!
# What a callback does

Every callback of `bc_io_cb` is a sequence of moves of the session.  Between
two callbacks the buffers are in order, a request that is ready has its
response ready, and a request that is not ready is not complete in the buffer.
-/

namespace Xltop.Http

open Xltop.Buffer
open Xltop.Memory
open Xltop.Text

/-! ## Between callbacks -/

/-- The buffers and the response of a connection are in order. -/
structure Sound {S : Type*} (app : App S) (w : World S) : Prop where
  events : w.conn.events.evError = false
  qBuf : w.conn.cQBuf.Check
  qSize : w.conn.cQBuf.nbSize = blQBufSize
  header : w.conn.cRHeader.Check
  headerStart : w.conn.cRHeader.nbStart = 0
  headerSize : w.conn.cRHeader.nbSize = blRHeaderSize
  rBody : nBufIsEmpty w.conn.cRBody = true
  rBodySize : w.conn.cRBody.nbSize = blRBodySize
  response : w.conn.cX.xR.Ok
  keeps : app.KeepsOpen → w.conn.cX.xR.rClose = false

/-- A connection between two callbacks. -/
structure WorldOk {S : Type*} (app : App S) (w : World S) : Prop
    extends Sound app w where
  unsent : w.conn.cX.xRSent = false
  ready : w.conn.cX.xRReady = w.conn.cX.xQReady
  reading : w.conn.cX.xRReady = false →
    Reading w.conn.cX ∧ Waiting w.conn.cX w.conn.cQBuf.data
  room : w.conn.cX.xRReady = true → w.conn.cX.xClose = false →
    w.conn.cQBuf.data.length < blQBufSize

variable {S : Type*} {app : App S} {w : World S}

/-! ## Writing -/

/-- What the part under `EV_WRITE` does. -/
structure Wrote (app : App S) (w w' : World S) : Prop where
  sound : Sound app w'
  moves : Moves w.session w'.session
  closed : w'.closed = w.closed
  x : w'.conn.cX.plain = w.conn.cX.plain
  qBuf : w'.conn.cQBuf = w.conn.cQBuf
  sent : w'.conn.cX.xRSent = true → w.conn.cX.xRReady = true ∧ w'.queue = []

theorem Wrote.refl (h : Sound app w) (hsent : w.conn.cX.xRSent = false) :
    Wrote app w w where
  sound := h
  moves := .refl
  closed := rfl
  x := rfl
  qBuf := rfl
  sent hs := by
    rw [hsent] at hs
    cases hs

theorem drainHeader_spec (h : Sound app w) (hsent : w.conn.cX.xRSent = false) {rc : Rc}
    {d : Drained} (hd : DrainedBy w.conn.cRHeader rc d) :
    Wrote app w (w.drainHeader d) := by
  have hqueue : w.queue = d.out ++ (w.drainHeader d).queue := by
    rw [World.queue, ← hd.bytes, List.append_assoc]
    rfl
  refine ⟨?_, .single (.write hqueue), rfl, rfl, rfl, fun hs => ?_⟩
  · exact { h with
      header := hd.check
      headerStart := hd.start h.headerStart
      headerSize := hd.size.trans h.headerSize }
  · change w.conn.cX.xRSent = true at hs
    rw [hsent] at hs
    cases hs

/-- The body is drained when its header has been written. -/
theorem drainBody_spec (h : Sound app w) (hsent : w.conn.cX.xRSent = false)
    (hheader : w.conn.cRHeader.data = []) (hready : w.conn.cX.xRReady = true) {rc : Rc}
    {b : Drained} (hb : DrainedBy w.conn.cX.xR.rBody rc b) :
    Wrote app w (w.drainBody b) := by
  have hafter : (w.drainBody b).queue = b.nb.data := by
    change w.conn.cRHeader.data ++
      (if w.conn.cX.xRReady = true then b.nb.data else []) = b.nb.data
    rw [hheader, if_pos hready, List.nil_append]
  have hqueue : w.queue = b.out ++ (w.drainBody b).queue := by
    rw [World.queue, hheader, if_pos hready, List.nil_append, hafter, hb.bytes]
  refine ⟨?_, .single (.write hqueue), rfl, rfl, rfl, fun hs => ⟨hready, ?_⟩⟩
  · exact { h with
      response := ⟨hb.check, hb.size.trans h.response.size, h.response.type⟩ }
  · change (w.conn.cX.xRSent || b.eof) = true at hs
    rw [hsent, Bool.false_or] at hs
    rw [hafter]
    exact hb.eof.1 hs

theorem bcWrite_spec (h : Sound app w) (hsent : w.conn.cX.xRSent = false) (sys : Sys) :
    Wrote app w (bcWrite w sys).1 ∧
      ((bcWrite w sys).2 = true → sys.header = .error ∨ sys.body = .error) := by
  rw [bcWrite.eq_def]
  have hd := nBufDrain_spec h.header sys.header
  generalize nBufDrain w.conn.cRHeader sys.header = d at hd ⊢
  have hwrote := drainHeader_spec h hsent hd
  simp only
  split_ifs with herr hboth
  · exact ⟨hwrote, fun _ => .inl (hd.err herr)⟩
  · rw [Bool.and_eq_true, hd.eof] at hboth
    have hb := nBufDrain_spec hwrote.sound.response.body sys.body
    have hbody := drainBody_spec hwrote.sound hsent hboth.1 hboth.2 hb
    exact ⟨⟨hbody.sound, hwrote.moves.trans hbody.moves, hbody.closed, hbody.x,
      hbody.qBuf, hbody.sent⟩, fun herr => .inr (hb.err herr)⟩
  · exact ⟨hwrote, fun hfalse => nomatch hfalse⟩

/-! ## Answering -/

/-- What `bx_handle` does to a request that is ready. -/
theorem bxHandle_spec (app : App S) (s : S) {x : BotzX} (hready : x.xQReady = true)
    (hanswer : x.xRReady = false) (hok : x.xR.Ok) :
    (bxHandle app s x).1.plain = x.plain.answered ∧ (bxHandle app s x).1.xR.Ok ∧
      (bxHandle app s x).1.xRSent = x.xRSent ∧
      (bxHandle app s x).1.xExpect100 = x.xExpect100 ∧
      (app.KeepsOpen → x.xR.rClose = false → (bxHandle app s x).1.xR.rClose = false) := by
  rw [bxHandle, if_neg (ne_true_of_eq_false hanswer)]
  cases hpath : x.xQ.qPath with
  | none =>
      have hsame := sameResponse_error x x rfl rfl (-1)
      refine ⟨?_, hsame.ok hok, rfl, rfl, fun _ hopen => hsame.close.trans hopen⟩
      simp [BotzX.plain, BotzX.answered, bxError, hready, hpath]
  | some path =>
      refine ⟨?_, app.ok s x.xQ x.xR hok, rfl, rfl, fun hkeeps => hkeeps s x.xQ x.xR⟩
      simp [BotzX.plain, BotzX.answered, hpath]

/-- A request that is ready, with what is left of the buffer after it. -/
structure Ready (w : World S) : Prop where
  ready : w.conn.cX.xQReady = true
  body : w.conn.cX.xQBodyLen ≤ w.conn.cQBuf.data.length
  room : w.conn.cX.plain.answered.xClose = false →
    w.conn.cQBuf.data.length - w.conn.cX.xQBodyLen < blQBufSize

/-- What `bc_handle` does. -/
structure Handled (app : App S) (w w' : World S) : Prop where
  sound : Sound app w'
  moves : Moves w.session w'.session
  closed : w'.closed = w.closed
  unsent : w'.conn.cX.xRSent = false
  answered : w'.conn.cX.xRReady = true
  ready : w'.conn.cX.xQReady = true
  header : w'.conn.cRHeader.data ≠ []
  room : w'.conn.cX.xClose = false → w'.conn.cQBuf.data.length < blQBufSize

/-- Before the answer, what is queued is in the header buffer. -/
theorem queue_of_unanswered (hanswer : w.conn.cX.xRReady = false) :
    w.queue = w.conn.cRHeader.data := by
  rw [World.queue, if_neg (Bool.eq_false_iff.1 hanswer), List.append_nil]

theorem reply_spec (h : Sound app w) (hanswer : w.conn.cX.xRReady = false)
    (hready : Ready w) {x : BotzX} (s : S) {r : Response} {header : NBuf}
    (hplain : x.plain = (w.conn.cX.plain.takeBody w.conn.cQBuf.data).answered)
    (hunsent : x.xRSent = false) (hexpect : x.xExpect100 = w.conn.cX.xExpect100)
    (hkeeps : app.KeepsOpen → x.xR.rClose = false)
    (hheader : HeaderWritten x.xR w.conn.cRHeader r header) :
    Handled app w (w.reply w.conn.cX.xQBodyLen x s r header) := by
  have hqueue := queue_of_unanswered hanswer
  have hanswered : x.xRReady = true := congrArg BotzX.xRReady hplain
  obtain ⟨hcheck, hskip⟩ := data_skip h.qBuf hready.body
  obtain ⟨text, htext⟩ := hheader.printed.kept
  have hafter : (w.reply w.conn.cX.xQBodyLen x s r header).queue =
      w.queue ++ (text ++ r.rBody.data) := by
    change header.data ++ (if x.xRReady = true then r.rBody.data else []) = _
    rw [if_pos hanswered, hqueue, ← htext, List.append_assoc]
  have hout : w.queue.length ≤ shortQueue → text ++ r.rBody.data = r.bytes := by
    intro hshort
    rw [hqueue, length_data_of_start h.headerStart] at hshort
    have hbytes := hheader.bytes h.headerSize hshort
    rw [← htext] at hbytes
    rw [List.append_cancel_left hbytes, Response.bytes]
  have hmove := Move.handle (s := w.session) hready.ready hanswer hready.body
    hheader.final hout
  refine ⟨⟨h.events, hcheck, h.qSize, hheader.printed.check, ?_, ?_, h.rBody, h.rBodySize,
    hheader.final.ok, fun hk => hheader.close.trans (hkeeps hk)⟩, .single ?_, rfl, hunsent,
    hanswered, ?_, hheader.ne_nil h.headerStart h.headerSize, fun hclose => ?_⟩
  · exact hheader.printed.start.trans h.headerStart
  · exact hheader.printed.size.trans h.headerSize
  · have hsession : (w.reply w.conn.cX.xQBodyLen x s r header).session =
        { w.session with
          x := (w.conn.cX.plain.takeBody w.conn.cQBuf.data).answered
          data := w.conn.cQBuf.data.drop w.conn.cX.xQBodyLen
          queue := w.queue ++ (text ++ r.rBody.data)
          interim := 0
          handled := w.handled ++ [⟨w.interim,
            (w.conn.cX.plain.takeBody w.conn.cQBuf.data).xQ, r⟩] } := by
      rw [World.session, hafter]
      change Session.mk x.plain x.xExpect100 (NBuf.data { w.conn.cQBuf with
        nbStart := w.conn.cQBuf.nbStart + w.conn.cX.xQBodyLen }) _ _ _ _
        (w.handled ++ [⟨w.interim, x.plain.xQ, r⟩]) = _
      rw [hplain, hexpect, hskip]
      rfl
    rw [hsession]
    exact hmove
  · exact (congrArg BotzX.xQReady hplain).trans hready.ready
  · have hopen : w.conn.cX.plain.answered.xClose = false :=
      (congrArg BotzX.xClose hplain).symm.trans hclose
    change (NBuf.data { w.conn.cQBuf with
      nbStart := w.conn.cQBuf.nbStart + w.conn.cX.xQBodyLen }).length < _
    rw [hskip, List.length_drop]
    exact hready.room hopen

theorem bcHandle_spec (h : Sound app w) (hsent : w.conn.cX.xRSent = false)
    (hanswer : w.conn.cX.xRReady = false) (hready : Ready w) :
    Handled app w (bcHandle app w) := by
  have hcond : (w.conn.cX.xQReady && !w.conn.cX.xRReady) = true := by
    rw [hready.ready, hanswer]
    rfl
  have hbody : slice w.conn.cQBuf.nbBuf w.conn.cQBuf.nbStart w.conn.cX.xQBodyLen =
      w.conn.cQBuf.data.take w.conn.cX.xQBodyLen := by
    have hle := hready.body
    rw [length_data] at hle
    exact (take_slice _ _ hle).symm
  obtain ⟨hplain, hok, hunsent, hexpect, hkeeps⟩ := bxHandle_spec app w.app
    (x := w.conn.cX.takeBody w.conn.cQBuf.data) hready.ready hanswer h.response
  have hheader := brWriteHeader_spec hok h.header
  rw [bcHandle, if_pos hcond]
  simp only [hbody]
  exact reply_spec h hanswer hready _ hplain (hunsent.trans hsent) hexpect
    (fun hk => hkeeps hk (h.keeps hk)) hheader

/-- What the interim response changes. -/
structure Prepared (app : App S) (w w' : World S) : Prop where
  sound : Sound app w'
  moves : Moves w.session w'.session
  closed : w'.closed = w.closed
  x : w'.conn.cX.plain = w.conn.cX.plain
  unsent : w'.conn.cX.xRSent = w.conn.cX.xRSent
  qBuf : w'.conn.cQBuf = w.conn.cQBuf

theorem bcExpect_spec (h : Sound app w) (hanswer : w.conn.cX.xRReady = false) :
    Prepared app w (bcExpect w).1 := by
  rw [bcExpect]
  split
  · next hcond =>
      rw [Bool.and_eq_true, Bool.and_eq_true, Bool.not_eq_true'] at hcond
      obtain ⟨⟨hexpect, hready⟩, -⟩ := hcond
      have hqueue := queue_of_unanswered hanswer
      have hprinted := printed h.header continueText
      obtain ⟨text, htext⟩ := hprinted.kept
      have hout : w.queue.length ≤ shortQueue → text = continueText := by
        intro hshort
        have hlength : continueText.length = 25 := by decide
        rw [hqueue, length_data_of_start h.headerStart, shortQueue] at hshort
        have hsize := h.headerSize
        rw [blRHeaderSize] at hsize
        have hbytes := (printedAll h.header continueText (by omega)).bytes
        rw [← htext] at hbytes
        exact List.append_cancel_left hbytes
      have hmove := Move.expect (s := w.session) hexpect hready hanswer hout
      refine ⟨?_, .single ?_, rfl, rfl, rfl, rfl⟩
      · exact { h with
          header := hprinted.check
          headerStart := hprinted.start.trans h.headerStart
          headerSize := hprinted.size.trans h.headerSize }
      · have hafter : (nBufPrintf w.conn.cRHeader continueText).data ++
            (if w.conn.cX.xRReady = true then w.conn.cX.xR.rBody.data else []) =
            w.queue ++ text := by
          rw [hanswer, if_neg Bool.false_ne_true, List.append_nil, ← htext, hqueue]
        change Move w.session { w.session with
          expect := false
          queue := w.queue ++ text
          interim := w.interim + 1 } at hmove
        rw [← hafter] at hmove
        exact hmove
  · exact ⟨h, .refl, rfl, rfl, rfl, rfl⟩

/-- What holds of a connection that stays open, and of the events it asks for. -/
structure Served (app : App S) (w w' : World S) : Prop where
  ok : WorldOk app w'
  moves : Moves w.session w'.session
  closed : w'.closed = w.closed
  mask : w'.conn.events.evRead = true ∨ w'.conn.events.evWrite = true
  quiet : w'.conn.events.evWrite = false →
    w'.queue = [] ∧ w'.conn.cX.xRReady = false

/-- The request is ready, or it needs more bytes and there may be more. -/
structure Answerable (w : World S) (eof : Bool) : Prop where
  unsent : w.conn.cX.xRSent = false
  unanswered : w.conn.cX.xRReady = false
  request : Ready w ∨ eof = false ∧ w.conn.cX.xQReady = false ∧ Reading w.conn.cX ∧
    Waiting w.conn.cX w.conn.cQBuf.data

theorem Ready.congr {w' : World S} (h : Ready w)
    (hx : w'.conn.cX.plain = w.conn.cX.plain)
    (hqBuf : w'.conn.cQBuf = w.conn.cQBuf) : Ready w' where
  ready := (congrArg BotzX.xQReady hx).trans h.ready
  body := by
    have hlen : w'.conn.cX.xQBodyLen = w.conn.cX.xQBodyLen :=
      (congrArg BotzX.xQBodyLen hx :)
    rw [hqBuf, hlen]
    exact h.body
  room hopen := by
    rw [hx] at hopen
    have hlen : w'.conn.cX.xQBodyLen = w.conn.cX.xQBodyLen :=
      (congrArg BotzX.xQBodyLen hx :)
    rw [hqBuf, hlen]
    exact h.room hopen

theorem reading_congr {x y : BotzX} (hx : y.plain = x.plain) (h : Reading x) :
    Reading y := by
  have hplain : Reading y.plain := by
    rw [hx]
    exact ⟨h.unanswered, h.fresh, h.started, h.wait⟩
  exact ⟨hplain.unanswered, hplain.fresh, hplain.started, hplain.wait⟩

theorem waiting_congr {x y : BotzX} (hx : y.plain = x.plain) {data : List Byte} :
    Waiting y data ↔ Waiting x data := by
  change Waiting y.plain data ↔ Waiting x.plain data
  rw [hx]

theorem bcAnswer_spec (h : Sound app w) {eof : Bool} (hanswer : Answerable w eof) :
    Served app w (bcAnswer app w eof) := by
  have hprepared := bcExpect_spec h hanswer.unanswered
  have hunsent := hprepared.unsent.trans hanswer.unsent
  have hunanswered : (bcExpect w).1.conn.cX.xRReady = false :=
    (congrArg BotzX.xRReady hprepared.x).trans hanswer.unanswered
  rw [bcAnswer]
  generalize bcExpect w = prepared at hprepared hunsent hunanswered ⊢
  obtain ⟨w₁, events⟩ := prepared
  simp only at hprepared hunsent hunanswered ⊢
  rcases hanswer.request with hready | ⟨rfl, hready, hreading, hwaiting⟩
  · have hhandled := bcHandle_spec hprepared.sound hunsent hunanswered
      (hready.congr hprepared.x hprepared.qBuf)
    generalize bcHandle app w₁ = w₂ at hhandled ⊢
    have hheader : nBufIsEmpty w₂.conn.cRHeader = false :=
      Bool.eq_false_iff.2 (mt (nBufIsEmpty_iff hhandled.sound.header).1 hhandled.header)
    have hwrite : (events.evWrite || (!nBufIsEmpty w₂.conn.cRHeader ||
        (w₂.conn.cX.xRReady && !nBufIsEmpty w₂.conn.cRBody))) = true := by
      rw [hheader, Bool.not_false, Bool.true_or, Bool.or_true]
    refine ⟨?_, hprepared.moves.trans hhandled.moves,
      hhandled.closed.trans hprepared.closed, .inr hwrite, fun hfalse => ?_⟩
    · exact
        { hhandled.sound with
          events := rfl
          unsent := hhandled.unsent
          ready := hhandled.answered.trans hhandled.ready.symm
          reading := fun hfalse => absurd (hhandled.answered.symm.trans hfalse) (by decide)
          room := fun _ => hhandled.room }
    · exact absurd (hwrite.symm.trans hfalse) (by decide)
  · have hready₁ : w₁.conn.cX.xQReady = false :=
      (congrArg BotzX.xQReady hprepared.x).trans hready
    have hsame : bcHandle app w₁ = w₁ := by
      rw [bcHandle, if_neg]
      rw [hready₁]
      exact Bool.false_ne_true
    rw [hsame]
    refine ⟨?_, hprepared.moves, hprepared.closed, .inl (Bool.or_true _),
      fun hwrite => ⟨?_, hunanswered⟩⟩
    · exact
        { hprepared.sound with
          events := rfl
          unsent := hunsent
          ready := hunanswered.trans hready₁.symm
          reading := fun _ => ⟨reading_congr hprepared.x hreading,
            (waiting_congr hprepared.x).2 (hprepared.qBuf ▸ hwaiting)⟩
          room := fun htrue => absurd (htrue.symm.trans hunanswered) (by decide) }
    · change (events.evWrite || (!nBufIsEmpty w₁.conn.cRHeader ||
        (w₁.conn.cX.xRReady && !nBufIsEmpty w₁.conn.cRBody))) = false at hwrite
      rw [Bool.or_eq_false_iff, Bool.or_eq_false_iff, Bool.not_eq_false'] at hwrite
      change w₁.conn.cRHeader.data ++
        (if w₁.conn.cX.xRReady = true then w₁.conn.cX.xR.rBody.data else []) = []
      rw [hunanswered, if_neg Bool.false_ne_true, List.append_nil]
      exact (nBufIsEmpty_iff hprepared.sound.header).1 hwrite.2.1

/-! ## Reading -/

/-- A connection whose request is being read, and whose buffer is not full with
a part of it that is complete. -/
structure Readable (app : App S) (w : World S) : Prop extends Sound app w where
  unsent : w.conn.cX.xRSent = false
  notReady : w.conn.cX.xQReady = false
  reading : Reading w.conn.cX
  space : Waiting w.conn.cX w.conn.cQBuf.data ∨ w.conn.cQBuf.data.length < blQBufSize

theorem filledBy_nothing {nb : NBuf} (h : nb.Check) (unread : List Byte) (rc : Rc) :
    FilledBy nb unread rc ⟨nb, unread, false, false⟩ :=
  ⟨h, rfl, ⟨[], (List.append_nil _).symm, rfl⟩, (fun heof => nomatch heof),
    fun herr => nomatch herr⟩

theorem fill_spec (h : Readable app w) {rc : Rc} {f : Filled}
    (hf : FilledBy w.conn.cQBuf w.unread rc f) :
    Sound app (w.fill f) ∧ Moves w.session (w.fill f).session := by
  refine ⟨?_, ?_⟩
  · exact { h.toSound with
      qBuf := hf.check
      qSize := hf.size.trans h.qSize }
  · obtain ⟨got, hdata, hunread⟩ := hf.bytes
    have hmove := Move.fill (s := w.session) hunread h.reading.unanswered
    change Move w.session { w.session with
      data := w.conn.cQBuf.data ++ got
      unread := f.unread } at hmove
    rw [← hdata] at hmove
    exact .single hmove

/-- What the loop over the lines does. -/
structure ReadTo (app : App S) (w w' : World S) : Prop where
  sound : Sound app w'
  moves : Moves w.session w'.session
  closed : w'.closed = w.closed
  unsent : w'.conn.cX.xRSent = false
  reading : Reading w'.conn.cX
  unread : w'.unread = w.unread
  fits : w'.conn.cQBuf.data.length ≤ w.conn.cQBuf.data.length
  request : Ready w' ∨ w'.conn.cX.xQReady = false ∧
    Waiting w'.conn.cX w'.conn.cQBuf.data

/-- The exchange and the bytes at hand after some lines. -/
structure LinesRead (w : World S) (x : BotzX) (data : List Byte) : Prop
    extends SameResponse w.conn.cX x where
  moves : Moves w.session { w.session with
    x := x.plain
    expect := x.xExpect100
    data := data }
  reading : Reading x
  fits : data.length ≤ w.conn.cQBuf.data.length
  ready : x.xQReady = true →
    x.xQBodyLen ≤ data.length ∧ data.length - x.xQBodyLen < blQBufSize

theorem linesRead_line {x : BotzX} {line rest : List Byte}
    (hsize : w.conn.cQBuf.data.length ≤ blQBufSize)
    (h : LinesRead w x (line ++ 10 :: rest)) (hready : x.xQReady = false)
    (hwait : x.xQBodyWait = false) (hline : 10 ∉ line) :
    LinesRead w (x.read line) rest := by
  have hread := h.reading.read hready hwait line
  have hfits := h.fits
  rw [List.length_append, List.length_cons] at hfits
  obtain ⟨hplain, hexpect⟩ := read_plain x line
  refine ⟨h.toSameResponse.trans hread.toSameResponse, ?_, hread.reading, by omega,
    fun hr => ?_⟩
  · apply h.moves.tail
    have hmove := Move.line (s := { w.session with
      x := x.plain
      expect := x.xExpect100
      data := line ++ 10 :: rest }) hready h.reading.unanswered hwait rfl hline
      (h.fits.trans hsize)
    rw [hplain, hexpect]
    exact hmove
  · rw [hread.noBody hr]
    exact ⟨Nat.zero_le _, by omega⟩

theorem linesRead_body {x : BotzX} {data : List Byte}
    (hsize : w.conn.cQBuf.data.length ≤ blQBufSize) (h : LinesRead w x data)
    (hready : x.xQReady = false) (hwait : x.xQBodyWait = true)
    (hlen : x.xQBodyLen ≤ data.length) :
    LinesRead w { x with xQReady := true } data := by
  have hpos := h.reading.wait hwait
  have hstarted : x.xReadCb ≠ .start := by
    intro hcb
    rw [(h.reading.fresh hcb).2.2.1] at hwait
    cases hwait
  refine ⟨⟨h.sent, h.response⟩, ?_, ⟨h.reading.unanswered,
    fun hcb => absurd hcb hstarted, h.reading.started, h.reading.wait⟩, h.fits,
    fun _ => ⟨hlen, ?_⟩⟩
  · have hmove := Move.body (s := { w.session with
      x := x.plain
      expect := x.xExpect100
      data := data }) hready h.reading.unanswered hwait hlen (h.fits.trans hsize)
    exact h.moves.tail hmove
  · have hfits := h.fits
    change data.length - x.xQBodyLen < blQBufSize
    omega

theorem readLines_spec (h : Sound app w) (hsent : w.conn.cX.xRSent = false)
    (hready : w.conn.cX.xQReady = false) (hreading : Reading w.conn.cX) :
    ReadTo app w w.readLines := by
  have hsize : w.conn.cQBuf.data.length ≤ blQBufSize := by
    rw [← h.qSize]
    exact length_data_le h.qBuf
  have hstart : LinesRead w w.conn.cX w.conn.cQBuf.data :=
    ⟨.refl _, .refl, hreading, le_rfl, fun hr =>
      absurd hr (ne_true_of_eq_false hready)⟩
  obtain ⟨hcheck, hsize', hlines⟩ := readLoop_rule (motive := LinesRead w)
    (linesRead_line hsize) (linesRead_body hsize)
    (nBufLength w.conn.cQBuf + 1) h.qBuf hstart
  have hstops := readLoop_stops (x := w.conn.cX) h.qBuf
    (Nat.lt_succ_of_le (length_data w.conn.cQBuf).le)
  rw [World.readLines]
  generalize readLoop _ w.conn.cX w.conn.cQBuf = read at hcheck hsize' hlines hstops ⊢
  obtain ⟨x, nb⟩ := read
  simp only at hcheck hsize' hlines hstops ⊢
  have hqueue : w.conn.cRHeader.data ++
      (if x.xRReady = true then x.xR.rBody.data else []) = w.queue := by
    rw [World.queue, hlines.reading.unanswered, hreading.unanswered]
    rfl
  have hmoves := hlines.moves
  change Moves w.session { w.session with
    x := x.plain
    expect := x.xExpect100
    data := nb.data
    queue := w.queue } at hmoves
  rw [← hqueue] at hmoves
  refine ⟨?_, hmoves, rfl, hlines.sent.trans hsent, hlines.reading, rfl,
    hlines.fits, ?_⟩
  · exact { h with
      qBuf := hcheck
      qSize := hsize'.trans h.qSize
      response := hlines.ok h.response
      keeps := fun hk => hlines.close.trans (h.keeps hk) }
  · by_cases hr : x.xQReady = true
    · exact .inl ⟨hr, (hlines.ready hr).1, fun _ => (hlines.ready hr).2⟩
    · refine .inr ⟨Bool.eq_false_iff.2 hr, ?_⟩
      rcases hstops with hr' | hempty | hwaiting
      · exact absurd hr' hr
      · change Waiting x nb.data
        rw [hempty, Waiting]
        split
        · next hwait => exact hlines.reading.wait hwait
        · exact List.not_mem_nil
      · exact hwaiting

/-- What `bc_io_cb` does from `n_buf_fill` on. -/
structure ReadOn (app : App S) (w : World S) (sys : Sys) (result : Exit × World S) :
    Prop where
  moves : Moves w.session result.2.session
  exit : result.1 = .done ∧ Served app w result.2 ∨
    result.1 = .close ∧ result.2.closed = true
  ends : result.1 = .close → sys.read ≠ .error → Over result.2.session

theorem failed_plain (cRBody : NBuf) :
    (bxError (bxReset cRBody) 400).plain = failedX := by
  rw [failedX, plain_error, plain_error, plain_reset, freshX, plain_plain]

/-- An incomplete request at EOF. -/
theorem failed_spec (h : Sound app w) (hready : w.conn.cX.xQReady = false)
    (hanswer : w.conn.cX.xRReady = false) (hstart : w.conn.cX.xQStart = true)
    (hwaiting : Waiting w.conn.cX w.conn.cQBuf.data) (heof : w.unread = [])
    (hfits : w.conn.cQBuf.data.length < blQBufSize) {x : BotzX}
    (hplain : x.plain = failedX) (hexpect : x.xExpect100 = false)
    (hsame : SameResponse (bxReset w.conn.cRBody) x) :
    Sound app (w.setX x) ∧ Move w.session (w.setX x).session ∧
      Answerable (w.setX x) true := by
  have hnot : x.xRReady = false := congrArg BotzX.xRReady hplain
  have hqueue : (w.setX x).queue = w.queue := by
    change w.conn.cRHeader.data ++ (if x.xRReady = true then x.xR.rBody.data else []) = _
    rw [World.queue, hnot, hanswer]
    rfl
  have hmove := Move.eof (s := w.session) hready hanswer hstart hwaiting heof hfits
  refine ⟨?_, ?_, hsame.sent, hnot, .inl ⟨?_, ?_, fun hopen => ?_⟩⟩
  · exact { h with
      response := hsame.ok ⟨check_clear _, h.rBodySize, Nat.zero_lt_succ _⟩
      keeps := fun _ => hsame.close }
  · have hsession : (w.setX x).session =
        { w.session with x := failedX, expect := false } := by
      rw [World.session, hqueue]
      change Session.mk x.plain x.xExpect100 _ _ _ _ _ _ = _
      rw [hplain, hexpect]
      rfl
    rw [hsession]
    exact hmove
  · exact congrArg BotzX.xQReady hplain
  · have hlen : x.xQBodyLen = 0 := (congrArg BotzX.xQBodyLen hplain :)
    change x.xQBodyLen ≤ _
    rw [hlen]
    exact Nat.zero_le _
  · change x.plain.answered.xClose = false at hopen
    rw [hplain] at hopen
    cases hopen

theorem Served.after {w₁ w' : World S} (h : Served app w₁ w')
    (hmoves : Moves w.session w₁.session) (hclosed : w₁.closed = w.closed) :
    Served app w w' :=
  ⟨h.ok, hmoves.trans h.moves, h.closed.trans hclosed, h.mask, h.quiet⟩

theorem bcRead_spec (h : Readable app w) (revents : Events) (sys : Sys) :
    ReadOn app w sys (bcRead app w revents sys) := by
  have hf : FilledBy w.conn.cQBuf w.unread sys.read
      (if revents.evRead then nBufFill w.conn.cQBuf w.unread sys.read
        else ⟨w.conn.cQBuf, w.unread, false, false⟩) := by
    split
    · exact nBufFill_spec h.qBuf w.unread sys.read
    · exact filledBy_nothing h.qBuf w.unread sys.read
  rw [bcRead]
  generalize (if revents.evRead = true then nBufFill w.conn.cQBuf w.unread sys.read
    else ⟨w.conn.cQBuf, w.unread, false, false⟩) = f at hf ⊢
  obtain ⟨hsound, hfill⟩ := fill_spec h hf
  have hlines := readLines_spec hsound h.unsent h.notReady h.reading
  have hmoves := hfill.trans hlines.moves
  have hclosed : (w.fill f).readLines.closed = w.closed := hlines.closed
  simp only
  by_cases herr : f.err = true
  · rw [if_pos herr]
    refine ⟨hfill, .inr ⟨rfl, rfl⟩, fun _ hclean => ?_⟩
    have hfull := (hf.err herr).resolve_right hclean
    rw [h.qSize] at hfull
    have hwaiting := h.space.resolve_right (by rw [hfull]; exact lt_irrefl _)
    -- nothing was read into a full buffer
    have hsame : f.nb.data = w.conn.cQBuf.data := by
      obtain ⟨got, hdata, -⟩ := hf.bytes
      have hlength := length_data_le hf.check
      rw [hf.size, h.qSize, hdata, List.length_append, hfull] at hlength
      have hnone : got = [] := List.length_eq_zero_iff.1 (by omega)
      rw [hdata, hnone, List.append_nil]
    refine .full h.notReady h.reading.unanswered ?_ ?_
    · change Waiting w.conn.cX f.nb.data
      rwa [hsame]
    · change f.nb.data.length = _
      rw [hsame, hfull]
  · rw [if_neg herr]
    generalize (w.fill f).readLines = w₁ at hlines hmoves hclosed ⊢
    have heof : f.eof = true →
        w₁.unread = [] ∧ w₁.conn.cQBuf.data.length < blQBufSize := by
      intro heof
      obtain ⟨hunread, hroom⟩ := hf.eof heof
      exact ⟨hlines.unread.trans hunread, hlines.fits.trans_lt (hroom.trans_eq h.qSize)⟩
    by_cases hend : (f.eof && !w₁.conn.cX.xQStart) = true
    · rw [if_pos hend]
      rw [Bool.and_eq_true, Bool.not_eq_true'] at hend
      refine ⟨hmoves, .inr ⟨rfl, rfl⟩, fun _ _ => ?_⟩
      have hready : w₁.conn.cX.xQReady = false := by
        cases hcb : w₁.conn.cX.xReadCb with
        | start => exact (hlines.reading.fresh hcb).2.1
        | header =>
            have hstart := hlines.reading.started hcb
            rw [hend.2] at hstart
            cases hstart
      have hwaiting := (hlines.request.resolve_left
        fun hr => absurd hr.ready (ne_true_of_eq_false hready)).2
      exact .ended hready hlines.reading.unanswered hwaiting (heof hend.1).1 hend.2
        (heof hend.1).2
    · rw [if_neg hend]
      by_cases hincomplete : (f.eof && !w₁.conn.cX.xQReady) = true
      · rw [if_pos hincomplete]
        rw [Bool.and_eq_true, Bool.not_eq_true'] at hincomplete
        obtain ⟨hfeof, hready⟩ := hincomplete
        rw [hfeof, Bool.true_and, Bool.not_eq_true, Bool.not_eq_false'] at hend
        have hwaiting := (hlines.request.resolve_left
          fun hr => absurd hr.ready (ne_true_of_eq_false hready)).2
        obtain ⟨hsound', hmove, hanswer⟩ := failed_spec hlines.sound hready
          hlines.reading.unanswered hend hwaiting (heof hfeof).1 (heof hfeof).2
          (failed_plain w₁.conn.cRBody) rfl
          (sameResponse_error (bxReset w₁.conn.cRBody) _ rfl rfl 400)
        rw [hfeof]
        have hserved := (bcAnswer_spec hsound' hanswer).after (hmoves.tail hmove) hclosed
        exact ⟨hserved.moves, .inl ⟨rfl, hserved⟩, fun hexit => nomatch hexit⟩
      · rw [if_neg hincomplete]
        have hanswer : Answerable w₁ f.eof := by
          refine ⟨hlines.unsent, hlines.reading.unanswered, ?_⟩
          rcases hlines.request with hready | ⟨hready, hwaiting⟩
          · exact .inl hready
          · rw [hready, Bool.not_false, Bool.and_true, Bool.not_eq_true] at hincomplete
            exact .inr ⟨hincomplete, hready, hlines.reading, hwaiting⟩
        have hserved := (bcAnswer_spec hlines.sound hanswer).after hmoves hclosed
        exact ⟨hserved.moves, .inl ⟨rfl, hserved⟩, fun hexit => nomatch hexit⟩

/-! ## The callback -/

/-- What a callback does. -/
structure Called (app : App S) (w : World S) (sys : Sys) (result : Exit × World S) :
    Prop where
  moves : Moves w.session result.2.session
  exit : result.1 ≠ .requestNotResponse
  stays : result.2.closed = false → Served app w result.2
  ends : result.2.closed = true → sys.read ≠ .error → sys.header ≠ .error →
    sys.body ≠ .error → app.KeepsOpen → Over result.2.session

theorem ReadOn.called {w₁ : World S} {sys : Sys} {result : Exit × World S}
    (h : ReadOn app w₁ sys result) (hmoves : Moves w.session w₁.session)
    (hopen : w.closed = false) (hclosed : w₁.closed = w.closed) :
    Called app w sys result := by
  refine ⟨hmoves.trans h.moves, fun hexit => ?_, fun hstays => ?_,
    fun hends hread _ _ _ => ?_⟩
  · rcases h.exit with ⟨hdone, -⟩ | ⟨hclose, -⟩
    · exact Exit.noConfusion (hexit.symm.trans hdone)
    · exact Exit.noConfusion (hexit.symm.trans hclose)
  · rcases h.exit with ⟨-, hserved⟩ | ⟨-, hends⟩
    · exact hserved.after hmoves hclosed
    · exact absurd hends (ne_true_of_eq_false hstays)
  · rcases h.exit with ⟨-, hserved⟩ | ⟨hclose, -⟩
    · have hstays := hserved.closed.trans (hclosed.trans hopen)
      exact absurd hends (ne_true_of_eq_false hstays)
    · exact h.ends hclose hread

/-- The exchange after the response has been sent. -/
theorem reset_spec (h : Sound app w) (hready : w.conn.cX.xRReady = true)
    (hsent : w.queue = []) (hopen : w.conn.cX.xClose = false)
    (hroom : w.conn.cQBuf.data.length < blQBufSize) :
    Readable app w.reset ∧ Move w.session w.reset.session := by
  have hheader : w.conn.cRHeader.data = [] := by
    rw [World.queue] at hsent
    exact (List.append_eq_nil_iff.1 hsent).1
  have hqueue : w.reset.queue = [] := by
    change w.conn.cRHeader.data ++ [] = []
    rw [hheader]
    rfl
  refine ⟨?_, ?_⟩
  · exact { h with
      response := ⟨check_clear _, h.rBodySize, Nat.zero_lt_succ _⟩
      keeps := fun _ => rfl
      unsent := rfl
      notReady := rfl
      reading := ⟨rfl, fun _ => ⟨rfl, rfl, rfl, rfl⟩, (fun hcb => nomatch hcb),
        fun hwait => nomatch hwait⟩
      space := .inr hroom }
  · have hmove := Move.next (s := w.session) hready hsent hopen
    have hsession : w.reset.session =
        { w.session with x := freshX, expect := false } := by
      rw [World.session, hqueue, ← hsent]
      rfl
    rw [hsession]
    exact hmove

/-- Between two callbacks, a callback on events that were asked for. -/
theorem callback_spec (h : WorldOk app w) (hopen : w.closed = false) (t : Turn) :
    Called app w t.sys (w.callback app t) := by
  have herror : (t.revents w.conn.events).evError = false := by
    rw [Turn.revents, h.events, Bool.and_false]
  have hwrite : Wrote app w (if (t.revents w.conn.events).evWrite = true
        then bcWrite w t.sys else (w, false)).1 ∧
      ((if (t.revents w.conn.events).evWrite = true
        then bcWrite w t.sys else (w, false)).2 = true →
        t.sys.header = .error ∨ t.sys.body = .error) := by
    split
    · exact bcWrite_spec h.toSound h.unsent t.sys
    · exact ⟨.refl h.toSound h.unsent, fun hfalse => nomatch hfalse⟩
  rw [World.callback, bcIoCb, if_neg (ne_true_of_eq_false herror)]
  generalize (if (t.revents w.conn.events).evWrite = true
    then bcWrite w t.sys else (w, false)) = written at hwrite ⊢
  obtain ⟨w₁, err⟩ := written
  obtain ⟨hwrote, herr⟩ := hwrite
  have hrready : w₁.conn.cX.xRReady = w.conn.cX.xRReady :=
    (congrArg BotzX.xRReady hwrote.x :)
  have hqready : w₁.conn.cX.xQReady = w.conn.cX.xQReady :=
    (congrArg BotzX.xQReady hwrote.x :)
  have hxclose : w₁.conn.cX.xClose = w.conn.cX.xClose :=
    (congrArg BotzX.xClose hwrote.x :)
  simp only at hwrote herr hrready hqready hxclose ⊢
  have hboth : w₁.conn.cX.xQReady = w₁.conn.cX.xRReady :=
    hqready.trans (h.ready.symm.trans hrready.symm)
  by_cases herr' : err = true
  · rw [if_pos herr']
    refine ⟨hwrote.moves, Exit.noConfusion, (fun hstays => nomatch hstays),
      fun _ _ hheader hbody _ => ?_⟩
    exact absurd (herr herr') (not_or.2 ⟨hheader, hbody⟩)
  rw [if_neg herr', if_neg (by rw [hboth, Bool.and_not_self]; exact Bool.false_ne_true)]
  cases hready : w₁.conn.cX.xRReady with
  | true =>
      have hwas : w.conn.cX.xRReady = true := hrready.symm.trans hready
      cases hsent : w₁.conn.cX.xRSent with
      | true =>
          obtain ⟨-, hempty⟩ := hwrote.sent hsent
          rw [if_neg (by simp), if_pos rfl]
          by_cases hclose : (w₁.conn.cX.xClose || w₁.conn.cX.xR.rClose) = true
          · rw [if_pos hclose]
            refine ⟨hwrote.moves, Exit.noConfusion, (fun hstays => nomatch hstays),
              fun _ _ _ _ hkeeps => .last hready hempty ?_⟩
            rwa [hwrote.sound.keeps hkeeps, Bool.or_false] at hclose
          · rw [if_neg hclose]
            rw [Bool.or_eq_true, not_or, Bool.not_eq_true] at hclose
            have hroom : w₁.conn.cQBuf.data.length < blQBufSize := by
              rw [hwrote.qBuf]
              exact h.room hwas (hxclose.symm.trans hclose.1)
            obtain ⟨hreadable, hmove⟩ := reset_spec hwrote.sound hready hempty hclose.1
              hroom
            exact (bcRead_spec hreadable _ t.sys).called (hwrote.moves.tail hmove) hopen
              hwrote.closed
      | false =>
          rw [if_pos (by simp)]
          have hserved : Served app w (w₁.setEvents ⟨false, true, false⟩) := by
            refine ⟨?_, hwrote.moves, hwrote.closed, .inr rfl,
              fun hwrite => nomatch hwrite⟩
            exact { hwrote.sound with
              events := rfl
              unsent := hsent
              ready := hboth.symm
              reading := fun hnot => absurd (hready.symm.trans hnot) (by decide)
              room := fun _ hx => by
                change w₁.conn.cQBuf.data.length < _
                rw [hwrote.qBuf]
                exact h.room hwas (hxclose.symm.trans hx) }
          have hstays : w₁.closed = false := hwrote.closed.trans hopen
          exact ⟨hserved.moves, Exit.noConfusion, fun _ => hserved,
            fun hends => absurd hends (ne_true_of_eq_false hstays)⟩
  | false =>
      have hwas : w.conn.cX.xRReady = false := hrready.symm.trans hready
      obtain ⟨hreading, hwaiting⟩ := h.reading hwas
      have hsent : w₁.conn.cX.xRSent = false := by
        by_contra hsent
        have hcontra := (hwrote.sent (Bool.not_eq_false _ ▸ hsent)).1
        exact absurd hcontra (ne_true_of_eq_false hwas)
      rw [hsent, if_neg (by simp), if_neg Bool.false_ne_true]
      have hreadable : Readable app w₁ :=
        { hwrote.sound with
          unsent := hsent
          notReady := hboth.trans hready
          reading := reading_congr hwrote.x hreading
          space := .inl ((waiting_congr hwrote.x).2 (hwrote.qBuf ▸ hwaiting)) }
      exact (bcRead_spec hreadable _ t.sys).called hwrote.moves hopen hwrote.closed

/-! ## Runs -/

theorem blListenCb_ok (app : App S) (block : Fin 3 → ℕ → Byte) (s : S)
    (stream : List Byte) : WorldOk app (blListenCb block s stream) where
  events := rfl
  qBuf := check_init _ _
  qSize := rfl
  header := check_init _ _
  headerStart := rfl
  headerSize := rfl
  rBody := rfl
  rBodySize := rfl
  response := ⟨check_clear _, rfl, Nat.zero_lt_succ _⟩
  keeps _ := rfl
  unsent := rfl
  ready := rfl
  reading _ := ⟨⟨rfl, fun _ => ⟨rfl, rfl, rfl, rfl⟩, (fun hcb => nomatch hcb),
    fun hwait => nomatch hwait⟩, List.not_mem_nil⟩
  room hready := nomatch hready

/-- What holds after any number of callbacks. -/
structure Reached (app : App S) (w w' : World S) : Prop where
  moves : Moves w.session w'.session
  ok : w'.closed = false → WorldOk app w'

theorem Reached.step {w' : World S} (h : Reached app w w') (t : Turn) :
    Reached app w (w'.step app t) := by
  rw [World.step]
  split
  · exact h
  · next hopen =>
      rw [Bool.not_eq_true] at hopen
      have hcalled := callback_spec (h.ok hopen) hopen t
      exact ⟨h.moves.trans hcalled.moves, fun hstays => (hcalled.stays hstays).ok⟩

theorem run_append (app : App S) (w : World S) (turns later : List Turn) :
    w.run app (turns ++ later) = (w.run app turns).run app later :=
  List.foldl_append

/-- Every run is a sequence of moves, and leaves an open connection in order. -/
theorem reached_run (h : w.closed = false → WorldOk app w) (turns : List Turn) :
    Reached app w (w.run app turns) := by
  induction turns using List.reverseRecOn with
  | nil => exact ⟨.refl, h⟩
  | append_singleton turns t ih =>
      rw [run_append]
      exact ih.step t

/-- When no system call fails and no handler closes the connection, it ends with
its session. -/
theorem over_of_closed (h : WorldOk app w) (hopen : w.closed = false)
    (hkeeps : app.KeepsOpen) {turns : List Turn} (hclean : ∀ t ∈ turns, t.Clean)
    (hclosed : (w.run app turns).closed = true) : Over (w.run app turns).session := by
  induction turns using List.reverseRecOn with
  | nil => exact absurd hclosed (ne_true_of_eq_false hopen)
  | append_singleton turns t ih =>
      have hbefore := reached_run (fun _ => h) turns
      rw [run_append] at hclosed ⊢
      change (((w.run app turns).step app t).closed) = true at hclosed
      change Over ((w.run app turns).step app t).session
      rw [World.step] at hclosed ⊢
      split at hclosed
      · next hdone =>
          rw [if_pos hdone]
          exact ih (fun t ht => hclean t (List.mem_append_left _ ht)) hdone
      · next hstill =>
          rw [if_neg hstill]
          rw [Bool.not_eq_true] at hstill
          obtain ⟨hread, hheader, hbody⟩ := hclean t (by simp)
          exact (callback_spec (hbefore.ok hstill) hstill t).ends hclosed hread hheader
            hbody hkeeps

/-! ## A small application -/

section Sample

/-- Every path is answered with the same body. -/
def sampleApp : App Unit where
  answer s _ r := ({ r with rBody := nBufPrintf r.rBody (lit "hi") }, s)
  ok _ _ _ h := ⟨(printed h.body _).check, (printed h.body _).size.trans h.size, h.type⟩

/-- One request and an incomplete one. -/
def sampleStream : List Byte :=
  lit "GET /a?b HTTP/1.1\r\nExpect: 100-continue\r\n\r\nPUT\n"

def sampleStart : World Unit :=
  blListenCb (fun _ _ => 0) () sampleStream

/-- A turn in which everything is ready and up to `n` bytes go through. -/
def sampleTurn (n : ℕ) : Turn :=
  ⟨⟨true, true, true⟩, ⟨.ok n, .ok n, .ok n⟩⟩

theorem sampleTurn_clean (n : ℕ) : (sampleTurn n).Clean := by
  refine ⟨?_, ?_, ?_⟩ <;> exact Rc.noConfusion

/-- Turns in which up to `n` bytes go through each. -/
def sampleTurns (count n : ℕ) : List Turn :=
  List.replicate count (sampleTurn n)

theorem sampleTurns_clean (count n : ℕ) : ∀ t ∈ sampleTurns count n, t.Clean := by
  intro t ht
  rw [List.eq_of_mem_replicate ht]
  exact sampleTurn_clean n

theorem sampleApp_keepsOpen : sampleApp.KeepsOpen := fun _ _ _ hopen => hopen

end Sample

end Xltop.Http
