import AmebaRtos.Usb.Uvc

/-!
# The frames of the UVC host

The variable for an error packet is forgotten at the end of the URB, and what does not fit in the
buffer is cut off without a trace; so the frames are exact if no frame is larger than a buffer and
every error packet is followed, in its own URB, by a packet that ends a frame. While an URB is
combined the buffer either holds the bytes of the open frame, which has no error packet (`Clean`),
or `err` is set and the next frame will be dropped.
-/

namespace AmebaRtos.Usb

open Lib List

def intactBytes (size : Nat) (frames : List (List UvcPacket)) : List (List UInt8) :=
  (frames.filter fun f => decide (Intact size f)).map frameBytes

def FramesFit (size : Nat) : Segment UvcPacket → List UvcPacket → Prop
  | _, [] => True
  | frames, p :: rest =>
    (frameBytes (frames.run UvcPacket.fid p)).length ≤ size ∧
      FramesFit size (frames.add UvcPacket.fid UvcPacket.eof p) rest

/-- A packet without the error bit ends a frame: it has the end-of-frame bit or another frame ID
    than the one before. -/
def FrameEnds : UInt8 → List UvcPacket → Prop
  | _, [] => False
  | lastFid, p :: rest =>
    (p.err = false ∧ (p.eof = true ∨ p.fid ≠ lastFid)) ∨ FrameEnds p.fid rest

def ErrorsEnd : List UvcPacket → Prop
  | [] => True
  | p :: rest => (p.err = true → FrameEnds p.fid rest) ∧ ErrorsEnd rest

def UvcCond (s : UvcStream) : UvcAction → Prop
  | .urb packets =>
    FramesFit s.frameBufferSize (framesOf s.packets) (packets.filter UvcPacket.usable) ∧
      ErrorsEnd (packets.filter UvcPacket.usable)
  | _ => True

/-- The frames ever put on the chain are intact frames of the packet stream, in order and each at
    most once. -/
def FramesExact (s : UvcStream) : Prop :=
  s.submitted.Sublist (intactBytes s.frameBufferSize (framesOf s.packets).done)
deriving Decidable

/-! ### Bytes of frames -/

section

theorem frameBytes_concat : frameBytes (frame ++ [p]) = frameBytes frame ++ p.payload := by
  simp [frameBytes]

theorem intactBytes_snoc (h : Intact size frame) :
    intactBytes size (frames ++ [frame]) = intactBytes size frames ++ [frameBytes frame] := by
  simp [intactBytes, h]

theorem intactBytes_sublist (h : frames <+: frames') :
    (intactBytes size frames).Sublist (intactBytes size frames') :=
  (h.sublist.filter _).map _

end

/-! ### Buffers -/

variable {s : UvcStream}

namespace UvcStream

theorem discardable_ready (buf : UvcFrame) : discardable { buf with state := .ready } = true := rfl

theorem discardOldestFrame_eq (h : ∃ f ∈ s.frameChain, discardable f = true) :
    ∃ chain f, s.discardOldestFrame =
      some { s with frameChain := chain, frameEmpty := s.frameEmpty ++ [f] } := by
  obtain ⟨target, htarget⟩ := Option.isSome_iff_exists.mp (List.find?_isSome.mpr h)
  refine ⟨s.frameChain.eraseP discardable, { target.reset with state := .init }, ?_⟩
  simp only [discardOldestFrame, htarget]

structure Kept (s s' : UvcStream) : Prop where
  size : s'.frameBufferSize = s.frameBufferSize
  fid : s'.lastFid = s.lastFid
  streaming : s'.streaming = s.streaming

theorem handleFrame_kept (buf : UvcFrame) (s : UvcStream) : Kept s (s.handleFrame buf) := by
  unfold handleFrame
  split
  · exact ⟨rfl, rfl, rfl⟩
  · exact ⟨rfl, rfl, rfl⟩

theorem takeEmpty_eq (h : s.frameEmpty ≠ []) :
    ∃ rest f, s.takeEmpty = ({ s with frameEmpty := rest }, some f) ∧ f.bytes = [] := by
  obtain ⟨f, rest, hf⟩ := exists_cons_of_ne_nil h
  refine ⟨rest, { f.reset with state := .flying }, ?_, rfl⟩
  simp only [takeEmpty, hf]

/-- There is always a next buffer: the frame that was just handled is on one of the two lists. -/
theorem nextFrameBuffer_spec (buf : UvcFrame) (s : UvcStream) :
    ∃ s' f, s.nextFrameBuffer buf = (s', some f) ∧ f.bytes = [] ∧ Kept s s' ∧
      s'.submitted = (s.handleFrame buf).submitted := by
  have hkept := handleFrame_kept buf s
  simp only [nextFrameBuffer]
  by_cases hempty : (s.handleFrame buf).frameEmpty = []
  · have hready : ∃ f ∈ (s.handleFrame buf).frameChain, discardable f = true := by
      unfold handleFrame at hempty ⊢
      split at hempty
      · simp at hempty
      next hbuf =>
        rw [if_neg hbuf]
        exact ⟨_, mem_append_right _ (.head _), discardable_ready buf⟩
    obtain ⟨chain, f, hdiscard⟩ := discardOldestFrame_eq hready
    obtain ⟨rest, f', htake, hbytes⟩ := takeEmpty_eq
      (s := { s.handleFrame buf with
        frameChain := chain, frameEmpty := (s.handleFrame buf).frameEmpty ++ [f] }) (by simp)
    rw [if_pos hempty, hdiscard]
    exact ⟨_, f', htake, hbytes, ⟨hkept.size, hkept.fid, hkept.streaming⟩, rfl⟩
  · obtain ⟨rest, f, htake, hbytes⟩ := takeEmpty_eq hempty
    rw [if_neg hempty]
    exact ⟨_, f, htake, hbytes, ⟨hkept.size, hkept.fid, hkept.streaming⟩, rfl⟩

end UvcStream

theorem submit_spec (c : Combine) : ∃ c', c.submit = .ok c' ∧ c'.frame.bytes = [] ∧ c'.err = false ∧
      UvcStream.Kept c.stream c'.stream ∧
      c'.stream.submitted =
        if c.err = true ∨ c.frame.bytes = [] then c.stream.submitted
        else c.stream.submitted ++ [c.frame.bytes] := by
  obtain ⟨s', f, hnext, hbytes, hkept, hsubmitted⟩ :=
    UvcStream.nextFrameBuffer_spec { c.frame with err := c.err } c.stream
  refine ⟨⟨s', f, false⟩, ?_, hbytes, rfl, hkept, ?_⟩
  · simp only [Combine.submit, hnext]
  · rw [hsubmitted]
    simp only [UvcStream.handleFrame]
    split
    · rfl
    · rfl

/-! ### One packet -/

/-- The loop of `usbh_uvc_combine_urb` has followed the stream up to here. -/
structure Following (size : Nat) (frames : Segment UvcPacket) (c : Combine) : Prop where
  bufferSize : c.stream.frameBufferSize = size
  fid : ∀ q ∈ frames.cur.getLast?, q.fid = c.stream.lastFid
  fits : (frameBytes frames.cur).length ≤ size
  delivered : c.stream.submitted.Sublist (intactBytes size frames.done)

structure Clean (run : List UvcPacket) (c : Combine) : Prop where
  bytes : c.frame.bytes = frameBytes run
  intact : ∀ p ∈ run, p.err = false

section Packet

variable {c : Combine}

theorem Clean.submitted (h : Clean run c) (hfits : (frameBytes run).length ≤ size)
    (hdelivered : c.stream.submitted.Sublist (intactBytes size done)) :
    (if c.err = true ∨ c.frame.bytes = [] then c.stream.submitted
      else c.stream.submitted ++ [c.frame.bytes]).Sublist (intactBytes size (done ++ [run])) := by
  have hintact : Intact size run := ⟨h.intact, hfits⟩
  rw [intactBytes_snoc hintact]
  split
  · exact hdelivered.trans (sublist_append_left _ _)
  · rw [h.bytes]
    exact hdelivered.append_right _

theorem submitted_of_err (herr : c.err = true) :
    (if c.err = true ∨ c.frame.bytes = [] then c.stream.submitted
      else c.stream.submitted ++ [c.frame.bytes]) = c.stream.submitted :=
  if_pos (.inl herr)

theorem Following.breaks_iff (h : Following size frames c) (hcur : frames.cur ≠ []) :
    frames.Breaks UvcPacket.fid p ↔ p.fid ≠ c.stream.lastFid := by
  obtain ⟨q, hq⟩ := Option.isSome_iff_exists.mp (List.getLast?_isSome.mpr hcur)
  have hfid := h.fid q hq
  simp only [Segment.Breaks, hq, Option.mem_some_iff, exists_eq_left', hfid]
  exact ne_comm

theorem Following.run_new (h : Following size frames c) (hfid : p.fid ≠ c.stream.lastFid) :
    frames.run UvcPacket.fid p = [p] := by
  by_cases hcur : frames.cur = []
  · unfold Segment.run
    split
    · rfl
    · simp [hcur]
  · exact Segment.run_of_breaks ((h.breaks_iff hcur).mpr hfid)

theorem Following.not_breaks (h : Following size frames c) (hfid : p.fid = c.stream.lastFid) :
    ¬ frames.Breaks UvcPacket.fid p := by
  rintro ⟨q, hq, hne⟩
  exact hne ((h.fid q hq).trans hfid.symm)

structure Joined (size : Nat) (frames : Segment UvcPacket) (p : UvcPacket) (c : Combine) :
    Prop where
  bufferSize : c.stream.frameBufferSize = size
  fid : c.stream.lastFid = p.fid
  delivered : c.stream.submitted.Sublist (intactBytes size (frames.closed UvcPacket.fid p))

/-- Logic A hands the open frame over exactly if the packet starts another one. Then the buffer is
    ready, or the frame will be dropped and the packet is no end. -/
theorem Following.checkFid (h : Following size frames c)
    (hclean : Clean frames.cur c ∨ c.err = true) (hp : p.err = false) :
    ∃ c', c.checkFid p = .ok c' ∧ Joined size frames p c' ∧
      ((c'.frame.bytes ++ p.payload = frameBytes (frames.run UvcPacket.fid p) ∧
          ∀ q ∈ frames.run UvcPacket.fid p, q.err = false) ∨
        (c'.err = true ∧ p.fid = c.stream.lastFid ∧ ¬ Clean frames.cur c)) := by
  by_cases hfid : p.fid = c.stream.lastFid
  · have hbreaks := h.not_breaks hfid
    refine ⟨c, if_neg (not_not.mpr hfid), ⟨h.bufferSize, hfid.symm, ?_⟩, ?_⟩
    · rw [Segment.closed_of_not_breaks hbreaks]
      exact h.delivered
    · by_cases hcur : Clean frames.cur c
      · refine .inl ⟨?_, ?_⟩
        · rw [Segment.run_of_not_breaks hbreaks, frameBytes_concat, hcur.bytes]
        · rw [Segment.run_of_not_breaks hbreaks]
          intro q hq
          rcases mem_append.mp hq with hq | hq
          · exact hcur.intact q hq
          · rw [mem_singleton.mp hq]
            exact hp
      · exact .inr ⟨hclean.resolve_left hcur, hfid, hcur⟩
  have hrun := h.run_new hfid
  have hstart {c' : Combine} (hbytes : c'.frame.bytes = []) :
      c'.frame.bytes ++ p.payload = frameBytes (frames.run UvcPacket.fid p) ∧
        ∀ q ∈ frames.run UvcPacket.fid p, q.err = false := by
    rw [hbytes, hrun]
    exact ⟨by simp [frameBytes], by simpa using hp⟩
  by_cases hempty : c.frame.bytes = []
  · refine ⟨{ c.setFid p.fid with err := false }, ?_, ⟨h.bufferSize, rfl, ?_⟩, .inl (hstart hempty)⟩
    · simp only [Combine.checkFid, if_pos hfid, hempty, ne_eq, not_true_eq_false, if_false]
    · exact h.delivered.trans (intactBytes_sublist Segment.done_prefix_closed)
  obtain ⟨c', hsubmit, hbytes, herr, hkept, hsubmitted⟩ := submit_spec c
  refine ⟨c'.setFid p.fid, ?_, ⟨hkept.size.trans h.bufferSize, rfl, ?_⟩, .inl (hstart hbytes)⟩
  · simp only [Combine.checkFid, if_pos hfid, hempty, ne_eq, not_false_eq_true, if_true, hsubmit]
  · show c'.stream.submitted.Sublist _
    rw [hsubmitted]
    rcases hclean with hclean | herr
    · have hcur : frames.cur ≠ [] := by
        intro hcur
        rw [hclean.bytes, hcur] at hempty
        exact hempty rfl
      rw [Segment.closed_of_breaks ((h.breaks_iff hcur).mpr hfid)]
      exact hclean.submitted h.fits h.delivered
    · rw [submitted_of_err herr]
      exact h.delivered.trans (intactBytes_sublist Segment.done_prefix_closed)

theorem copyPayload_clean (hsize : c.stream.frameBufferSize = size)
    (hbytes : c.frame.bytes ++ p.payload = frameBytes run) (hintact : ∀ q ∈ run, q.err = false)
    (hfits : (frameBytes run).length ≤ size) : Clean run (c.copyPayload p) := by
  refine ⟨?_, hintact⟩
  have hlen : c.frame.bytes.length + p.payload.length ≤ size := by
    rw [← length_append, hbytes]
    exact hfits
  have hroom : p.payload.length ≤ c.stream.frameBufferSize - c.frame.bytes.length := by
    rw [hsize]
    exact Nat.le_sub_of_add_le' hlen
  show c.frame.bytes ++ p.payload.take (c.stream.frameBufferSize - c.frame.bytes.length) =
    frameBytes run
  rw [take_of_length_le hroom, hbytes]

theorem Joined.checkEof (h : Joined size frames p c)
    (hfits : (frameBytes (frames.run UvcPacket.fid p)).length ≤ size)
    (hclean : Clean (frames.run UvcPacket.fid p) c ∨ c.err = true) :
    ∃ c', c.checkEof p = .ok c' ∧ Following size (frames.add UvcPacket.fid UvcPacket.eof p) c' ∧
      (Clean (frames.add UvcPacket.fid UvcPacket.eof p).cur c' ∨ (c' = c ∧ p.eof = false)) ∧
      c'.stream.lastFid = p.fid := by
  cases heof : p.eof with
  | false =>
    rw [Segment.add_of_not_ends heof]
    refine ⟨c, if_neg (by simp [heof]), ⟨h.bufferSize, ?_, hfits, h.delivered⟩, .inr ⟨rfl, rfl⟩,
      h.fid⟩
    intro q hq
    rw [Segment.getLast?_run] at hq
    rw [h.fid, Option.mem_some_iff.mp hq]
  | true =>
    have hdone : (frames.closed UvcPacket.fid p) <+:
        frames.closed UvcPacket.fid p ++ [frames.run UvcPacket.fid p] := prefix_append _ _
    rw [Segment.add_of_ends heof]
    by_cases hempty : c.frame.bytes = []
    · refine ⟨c, if_neg (by simp [hempty]), ⟨h.bufferSize, nofun, Nat.zero_le _, ?_⟩,
        .inl ⟨hempty, nofun⟩, h.fid⟩
      exact h.delivered.trans (intactBytes_sublist hdone)
    obtain ⟨c', hsubmit, hbytes, herr, hkept, hsubmitted⟩ := submit_spec c
    refine ⟨c', ?_, ⟨hkept.size.trans h.bufferSize, nofun, Nat.zero_le _, ?_⟩,
      .inl ⟨hbytes, nofun⟩, hkept.fid.trans h.fid⟩
    · rw [Combine.checkEof, if_pos ⟨heof, hempty⟩, hsubmit]
    · rw [hsubmitted]
      rcases hclean with hclean | herr
      · exact hclean.submitted hfits h.delivered
      · rw [submitted_of_err herr]
        exact h.delivered.trans (intactBytes_sublist hdone)

theorem Following.errPacket (h : Following size frames c) (husable : p.usable = true)
    (hp : p.err = true) (hfits : (frameBytes (frames.run UvcPacket.fid p)).length ≤ size) :
    ∃ c', c.packet p = .ok c' ∧
      Following size (frames.add UvcPacket.fid UvcPacket.eof p) c' ∧ c'.err = true ∧
      c'.stream.lastFid = p.fid := by
  refine ⟨{ c.setFid p.fid with err := true }, ?_, ⟨h.bufferSize, ?_, ?_, ?_⟩, rfl, rfl⟩
  · simp only [Combine.packet, husable, hp, if_true, Bool.true_eq_false, if_false]
  · cases heof : p.eof with
    | true =>
      rw [Segment.add_of_ends heof]
      exact nofun
    | false =>
      rw [Segment.add_of_not_ends heof]
      intro q hq
      rw [Segment.getLast?_run] at hq
      rw [← Option.mem_some_iff.mp hq]
      rfl
  · cases heof : p.eof with
    | true =>
      rw [Segment.add_of_ends heof]
      exact Nat.zero_le _
    | false =>
      rw [Segment.add_of_not_ends heof]
      exact hfits
  · exact h.delivered.trans (intactBytes_sublist Segment.done_prefix_add)

/-- A packet without the error bit. It leaves the buffer clean if it was clean or if it ends a
    frame. -/
theorem Following.dataPacket (h : Following size frames c)
    (hclean : Clean frames.cur c ∨ c.err = true) (husable : p.usable = true)
    (hp : p.err = false) (hfits : (frameBytes (frames.run UvcPacket.fid p)).length ≤ size) :
    ∃ c', c.packet p = .ok c' ∧ Following size (frames.add UvcPacket.fid UvcPacket.eof p) c' ∧
      (Clean (frames.add UvcPacket.fid UvcPacket.eof p).cur c' ∨
        (c'.err = true ∧ p.eof = false ∧ p.fid = c.stream.lastFid ∧ ¬ Clean frames.cur c)) ∧
      c'.stream.lastFid = p.fid := by
  obtain ⟨c₁, hcheck, hjoined, hstart⟩ := h.checkFid hclean hp
  have hjoined₂ : Joined size frames p (c₁.copyPayload p) :=
    ⟨hjoined.bufferSize, hjoined.fid, hjoined.delivered⟩
  have hpacket : c.packet p = (c₁.copyPayload p).checkEof p := by
    simp only [Combine.packet, husable, hp, Bool.true_eq_false, Bool.false_eq_true, if_false,
      hcheck]
  rw [hpacket]
  rcases hstart with ⟨hbytes, hintact⟩ | ⟨herr, hfid, hdirty⟩
  · have hcopy := copyPayload_clean hjoined.bufferSize hbytes hintact hfits
    obtain ⟨c', hcheck, hfollow, hclean', hlast⟩ := hjoined₂.checkEof hfits (.inl hcopy)
    refine ⟨c', hcheck, hfollow, .inl ?_, hlast⟩
    rcases hclean' with hclean' | ⟨rfl, heof⟩
    · exact hclean'
    · rw [Segment.add_of_not_ends heof]
      exact hcopy
  · obtain ⟨c', hcheck, hfollow, hclean', hlast⟩ := hjoined₂.checkEof hfits (.inr herr)
    refine ⟨c', hcheck, hfollow, hclean'.imp_right ?_, hlast⟩
    rintro ⟨rfl, heof⟩
    exact ⟨herr, heof, hfid, hdirty⟩

end Packet

/-! ### One URB -/

/-- The packets of an URB. An error packet is made up for by a packet that ends a frame behind it,
    so that the buffer is clean at the end. -/
theorem packets_follow (h : Following size frames c) (hclean : Clean frames.cur c ∨
      (c.err = true ∧ FrameEnds c.stream.lastFid (packets.filter UvcPacket.usable)))
    (hfits : FramesFit size frames (packets.filter UvcPacket.usable))
    (herrors : ErrorsEnd (packets.filter UvcPacket.usable)) :
    ∃ c', Combine.packets packets c = .ok c' ∧ Following size (addPackets frames packets) c' ∧
      Clean (addPackets frames packets).cur c' := by
  induction packets generalizing frames c with
  | nil =>
    rcases hclean with hclean | ⟨_, hends⟩
    · exact ⟨c, rfl, h, hclean⟩
    · exact hends.elim
  | cons p rest ih =>
    cases husable : p.usable with
    | false =>
      have hskip : c.packet p = .ok c := by simp only [Combine.packet, husable, if_true]
      simp only [filter_cons, husable] at hclean hfits herrors
      obtain ⟨c', hrest, hfollow, hclean'⟩ := ih h hclean hfits herrors
      refine ⟨c', ?_, ?_⟩
      · simp only [Combine.packets, hskip, hrest]
      · simpa only [addPackets, filter_cons, husable] using
          ⟨hfollow, hclean'⟩
    | true =>
      simp only [filter_cons, husable] at hclean hfits herrors
      obtain ⟨c₁, hpacket, hfollow, hnext⟩ : ∃ c₁, c.packet p = .ok c₁ ∧
          Following size (frames.add UvcPacket.fid UvcPacket.eof p) c₁ ∧
          (Clean (frames.add UvcPacket.fid UvcPacket.eof p).cur c₁ ∨ (c₁.err = true ∧
            FrameEnds c₁.stream.lastFid (rest.filter UvcPacket.usable))) := by
        cases hp : p.err with
        | true =>
          obtain ⟨c₁, hpacket, hfollow, herr, hlast⟩ := h.errPacket husable hp hfits.1
          refine ⟨c₁, hpacket, hfollow, .inr ⟨herr, ?_⟩⟩
          rw [hlast]
          exact herrors.1 hp
        | false =>
          obtain ⟨c₁, hpacket, hfollow, hclean', hlast⟩ :=
            h.dataPacket (hclean.imp_right And.left) husable hp hfits.1
          refine ⟨c₁, hpacket, hfollow, hclean'.imp_right ?_⟩
          rintro ⟨herr, heof, hfid, hdirty⟩
          refine ⟨herr, ?_⟩
          rw [hlast]
          rcases (hclean.resolve_left hdirty).2 with ⟨_, hend⟩ | hends
          · exact absurd hend (by simp [heof, hfid])
          · exact hends
      obtain ⟨c', hrest, hfollow', hclean'⟩ := ih hfollow hnext hfits.2 herrors.2
      refine ⟨c', ?_, ?_⟩
      · simp only [Combine.packets, hpacket, hrest]
      · simpa only [addPackets, filter_cons, husable] using ⟨hfollow', hclean'⟩

/-! ### Runs -/

structure Synced (s : UvcStream) : Prop where
  fid : ∀ q ∈ (framesOf s.packets).cur.getLast?, q.fid = s.lastFid
  fits : (frameBytes (framesOf s.packets).cur).length ≤ s.frameBufferSize
  intact : ∀ p ∈ (framesOf s.packets).cur, p.err = false
  frame : ∀ buf ∈ s.curFrameBuf, buf.bytes = frameBytes (framesOf s.packets).cur
  fresh : s.curFrameBuf = none → (framesOf s.packets).cur = [] ∧ s.frameEmpty ≠ []

structure UvcInv (s : UvcStream) : Prop where
  exact : FramesExact s
  synced : s.streaming = true → Synced s

theorem acquire_spec (h : Synced s) (hexact : FramesExact s) :
    ∃ s' buf, s.acquire = .ok (s', buf) ∧ UvcStream.Kept s s' ∧
      Following s.frameBufferSize (framesOf s.packets) ⟨s', buf, false⟩ ∧
      Clean (framesOf s.packets).cur ⟨s', buf, false⟩ := by
  unfold UvcStream.acquire
  cases hcur : s.curFrameBuf with
  | some buf =>
    exact ⟨s, buf, rfl, ⟨rfl, rfl, rfl⟩, ⟨rfl, h.fid, h.fits, hexact⟩, ⟨h.frame buf hcur, h.intact⟩⟩
  | none =>
    obtain ⟨hopen, hempty⟩ := h.fresh hcur
    obtain ⟨f, rest, hf⟩ := exists_cons_of_ne_nil hempty
    simp only [hf]
    refine ⟨_, _, rfl, ⟨rfl, rfl, rfl⟩, ⟨rfl, h.fid, h.fits, hexact⟩, ⟨?_, h.intact⟩⟩
    rw [hopen]
    rfl

theorem FramesExact.of_packets (h : FramesExact s) :
    FramesExact { s with packets := s.packets ++ packets } := by
  refine h.trans (intactBytes_sublist ?_)
  rw [framesOf_append]
  exact Segment.done_prefix_addAll

theorem UvcInv.urb (h : UvcInv s) (hcond : UvcCond s (.urb packets)) :
    UvcInv (uvcStep s (.urb packets)) := by
  simp only [uvcStep, UvcStream.combineUrb]
  cases hstreaming : s.streaming with
  | false => exact ⟨h.exact.of_packets, by simp [hstreaming]⟩
  | true =>
    obtain ⟨s', buf, hacquire, hkept, hfollow, hclean⟩ :=
      acquire_spec (h.synced hstreaming) h.exact
    obtain ⟨c', hpackets, hfollow', hclean'⟩ :=
      packets_follow hfollow (.inl hclean) hcond.1 hcond.2
    rw [← framesOf_append] at hfollow' hclean'
    simp only [hacquire, hpackets]
    have hsize : c'.stream.frameBufferSize = s.frameBufferSize := hfollow'.bufferSize
    constructor
    · show c'.stream.submitted.Sublist (intactBytes c'.stream.frameBufferSize _)
      rw [hsize]
      exact hfollow'.delivered
    · intro _
      refine ⟨hfollow'.fid, ?_, hclean'.intact, ?_, nofun⟩
      · exact hfollow'.fits.trans_eq hsize.symm
      · intro buf hbuf
        rw [← Option.mem_some_iff.mp hbuf]
        exact hclean'.bytes

theorem UvcInv.getFrame (h : UvcInv s) : UvcInv s.getFrame := by
  unfold UvcStream.getFrame
  split
  · exact h
  · exact ⟨h.exact, fun hstreaming => { h.synced hstreaming with }⟩

theorem UvcInv.putFrame (h : UvcInv s) (index : Nat) : UvcInv (s.putFrame index) := by
  unfold UvcStream.putFrame
  split
  · exact h
  · refine ⟨h.exact, fun hstreaming => { h.synced hstreaming with fresh := fun hcur => ?_ }⟩
    exact ⟨((h.synced hstreaming).fresh hcur).1, by simp⟩

theorem UvcInv.step (h : UvcInv s) (hcond : UvcCond s a) : UvcInv (uvcStep s a) := by
  cases a with
  | urb packets => exact h.urb hcond
  | getFrame => exact h.getFrame
  | putFrame index => exact h.putFrame index
  | stop => exact ⟨h.exact, nofun⟩

theorem uvcInv_init : UvcInv (UvcStream.init frameBufferSize) where
  exact := nil_sublist _
  synced := fun _ => by
    have hempty : (UvcStream.init frameBufferSize).frameEmpty ≠ [] := by
      simp [UvcStream.init, USBH_UVC_VIDEO_FRAME_NUMS]
    exact ⟨nofun, Nat.zero_le _, nofun, nofun, fun _ => ⟨rfl, hempty⟩⟩

/-- In every run in which no frame is larger than a buffer and every error packet is made up for
    in its URB, the frames on the chain are exact. -/
theorem frames_exact {frameBufferSize : Nat} {actions : List UvcAction}
    (h : Along uvcStep UvcCond (UvcStream.init frameBufferSize) actions) :
    Throughout uvcStep FramesExact (UvcStream.init frameBufferSize) actions := by
  have hinv : Throughout uvcStep UvcInv (UvcStream.init frameBufferSize) actions :=
    h.throughout (fun _ _ hs ha => hs.step ha) (uvcInv_init)
  exact hinv.mono fun _ hs => hs.exact

/-! ### Runs of a camera -/

instance decidableFramesFit (size : Nat) :
    ∀ frames packets, Decidable (FramesFit size frames packets)
  | _, [] => isTrue trivial
  | frames, p :: rest =>
    have := decidableFramesFit size (frames.add UvcPacket.fid UvcPacket.eof p) rest
    inferInstanceAs (Decidable (_ ∧ _))

instance decidableFrameEnds : ∀ lastFid packets, Decidable (FrameEnds lastFid packets)
  | _, [] => isFalse id
  | _, p :: rest =>
    have := decidableFrameEnds p.fid rest
    inferInstanceAs (Decidable (_ ∨ _))

instance decidableErrorsEnd : ∀ packets, Decidable (ErrorsEnd packets)
  | [] => isTrue trivial
  | _ :: rest =>
    have := decidableErrorsEnd rest
    inferInstanceAs (Decidable (_ ∧ _))

instance (s : UvcStream) : ∀ a, Decidable (UvcCond s a)
  | .urb _ => inferInstanceAs (Decidable (_ ∧ _))
  | .getFrame => isTrue trivial
  | .putFrame _ => isTrue trivial
  | .stop => isTrue trivial

/-- A packet with a header of two bytes. -/
def uvcPacket (info : UInt8) (payload : List UInt8) : UvcPacket :=
  ⟨fun i => ([2, info] ++ payload).getD i 0, 2 + payload.length⟩

/-- A frame in two URBs, of which the second one also has a frame with an error packet. -/
def twoFrames : List UvcAction :=
  [.urb [uvcPacket 0x00 [1, 2]],
    .urb [uvcPacket 0x02 [3], uvcPacket 0x41 [], uvcPacket 0x03 [9]], .getFrame, .putFrame 0]

theorem frames_exact_twoFrames : Throughout uvcStep FramesExact (UvcStream.init 4) twoFrames :=
  frames_exact (by decide +kernel)

/-- A frame whose error packet is in an earlier URB is put on the chain, and so is one of 33
    bytes in a buffer of 32. -/
theorem damaged_frames_submitted : ¬ FramesExact ([.urb [uvcPacket 0x00 [1], uvcPacket 0x40 [2]],
      .urb [uvcPacket 0x02 [3]]].foldl uvcStep (UvcStream.init 32)) ∧
    ¬ FramesExact ([.urb [uvcPacket 0x02 (replicate 33 1)]].foldl uvcStep (UvcStream.init 32)) := by
  decide +kernel

end AmebaRtos.Usb
