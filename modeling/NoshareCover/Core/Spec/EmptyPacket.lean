import NoshareCover.Core.Spec.FirstPacket
import NoshareCover.Core.Video.Mp4
import NoshareCover.Lib.Feed

/-!
# Packets without data

A decoder takes an empty packet for the end of the stream.  `never_empty_iff` says which samples
become empty packets, and that a demuxer hands out one just if such a sample is ahead of it.
-/

namespace NoshareCover

open Bitstream

/-! ### One sample -/

namespace Framing

/-- The sample has nothing to decode: it is empty, or all of its units are, and there are no
parameter sets to go in front. -/
def Empties (f : Framing) (data : List UInt8) (keyframe : Bool) : Prop :=
  match f with
  | .raw => data = []
  | .nal cfg => (∃ n, data = List.replicate (n * cfg.lengthSize) 0) ∧
      (keyframe = true → cfg.parameterSets = [])

theorem flatMap_annexb_eq_nil {nals : List (List UInt8)} : nals.flatMap annexb = [] ↔ nals = [] := by
  cases nals with
  | nil => exact iff_of_true rfl rfl
  | cons nal nals => exact iff_of_false (List.cons_ne_nil _ _) (List.cons_ne_nil _ _)

/-- Empty units are zeros. -/
theorem flatMap_sampleRecord_empty (k : ℕ) {nals : List (List UInt8)} (h : ∀ nal ∈ nals, nal = []) :
    nals.flatMap (sampleRecord k) = List.replicate (nals.length * k) 0 := by
  induction nals with
  | nil => rw [List.length_nil, Nat.zero_mul]; rfl
  | cons nal nals ih =>
    obtain ⟨rfl, hnals⟩ := List.forall_mem_cons.1 h
    rw [List.flatMap_cons, ih hnals, sampleRecord, List.length_nil, BigEndian.encode_zero,
      List.append_nil, List.replicate_append_replicate, List.length_cons]
    congr 1
    ring

/-- **When a sample is converted to nothing.** -/
theorem toAnnexb_eq_nil_iff (data : List UInt8) (cfg : NalConfig) (keyframe : Bool) :
    toAnnexb data cfg keyframe = some [] ↔ (Framing.nal cfg).Empties data keyframe := by
  rw [toAnnexb_eq_some_iff]
  constructor
  -- nothing was written, so every unit is empty and there are no sets
  · rintro ⟨nals, -, rfl, hnil⟩
    obtain ⟨hsets, hunits⟩ := List.append_eq_nil_iff.1 hnil.symm
    rw [flatMap_annexb_eq_nil, List.filter_eq_nil_iff] at hunits
    have hempty : ∀ nal ∈ nals, nal = [] := fun nal hnal => by simpa using hunits nal hnal
    refine ⟨⟨nals.length, flatMap_sampleRecord_empty _ hempty⟩, fun hkey => ?_⟩
    rw [if_pos hkey, flatMap_annexb_eq_nil] at hsets
    exact hsets
  -- a row of empty units converts to nothing
  · rintro ⟨⟨n, rfl⟩, hsets⟩
    have hempty : ∀ nal ∈ List.replicate n ([] : List UInt8), nal = [] :=
      fun nal hnal => List.eq_of_mem_replicate hnal
    refine ⟨List.replicate n [], fun nal hnal => ?_, ?_, ?_⟩
    · rw [hempty nal hnal]
      exact Nat.pow_pos (by decide)
    · rw [flatMap_sampleRecord_empty _ hempty, List.length_replicate]
    · have hfilter : (List.replicate n ([] : List UInt8)).filter (fun nal => nal ≠ []) = [] := by
        rw [List.filter_eq_nil_iff]
        intro nal hnal
        simp [hempty nal hnal]
      rw [hfilter, List.flatMap_nil, List.append_nil]
      -- the sets are in front of a keyframe only
      split_ifs with hkey
      · rw [hsets hkey]
        rfl
      · rfl

/-- **When a packet has data.** -/
theorem packet_ne_nil_iff (f : Framing) (data : List UInt8) (pts : ℕ) (keyframe : Bool) :
    (∀ p, f.packet data pts keyframe = some p → p.data ≠ []) ↔ ¬ f.Empties data keyframe := by
  cases f with
  | raw =>
    constructor
    · exact fun h => h _ rfl
    · rintro h p hp
      obtain rfl := Option.some.inj hp
      exact h
  -- a packet exists when the data converts
  | nal cfg =>
    rw [← toAnnexb_eq_nil_iff]
    constructor
    · intro h hnil
      refine h { pts, keyframe, data := [] } ?_ rfl
      show (toAnnexb data cfg keyframe).map _ = _
      rw [hnil]
      rfl
    · rintro h p hp hnil
      obtain ⟨out, hout, rfl⟩ := Option.map_eq_some_iff.1 hp
      obtain rfl : out = [] := hnil
      exact h hout

end Framing

/-! ### The packets of a demuxer -/

/-- What a call of `next_packet` gives, if the file is not at its end. -/
def heard : PipeResult (Option Packet) → Option (PipeResult Packet)
  | .ok p => p.map .ok
  | .error e => some (.error e)

theorem heard_eq_some_ok_iff {r : PipeResult (Option Packet)} {p : Packet} :
    heard r = some (.ok p) ↔ r = .ok (some p) := by
  rcases r with e | _ | q
  · exact iff_of_false nofun nofun
  · exact iff_of_false nofun nofun
  · constructor
    · intro h
      cases h
      rfl
    · intro h
      cases h
      rfl

section Demuxers

variable {δ : Type} [Demuxer δ]

def heardNext (d : δ) : Option (PipeResult Packet) × δ :=
  (heard (Demuxer.nextPacket d).1, (Demuxer.nextPacket d).2)

/-- No call of `next_packet` from here on gives an empty packet. -/
def NeverEmpty (d : δ) : Prop :=
  ∀ n p, (Demuxer.nextPacket ((fun d : δ => (Demuxer.nextPacket d).2)^[n] d)).1 = .ok (some p) →
    p.data ≠ []

theorem neverEmpty_iff {items : δ → List (Option (PipeResult Packet))}
    (h : Feed.Follows heardNext items) (d : δ) :
    NeverEmpty d ↔ ∀ p, some (.ok p) ∈ items d → p.data ≠ [] := by
  have hcall := h.exists_call_iff d
  constructor
  · intro hnever p hp
    obtain ⟨n, hn⟩ := (hcall (.ok p)).2 hp
    exact hnever n p (heard_eq_some_ok_iff.1 hn)
  · intro hitems n p hp
    exact hitems p ((hcall (.ok p)).1 ⟨n, heard_eq_some_ok_iff.2 hp⟩)

end Demuxers

/-! #### MP4 -/

theorem Mp4Demux.follows :
    Feed.Follows heardNext fun d : Mp4Demux => (d.samples.drop d.next).map d.sample := by
  have hboth : ∀ d : Mp4Demux, heard d.nextPacket.1
        = (Feed.next ((d.samples.drop d.next).map d.sample)).1
      ∧ (d.nextPacket.2.samples.drop d.nextPacket.2.next).map d.nextPacket.2.sample
        = (Feed.next ((d.samples.drop d.next).map d.sample)).2 := by
    intro d
    fun_induction Mp4Demux.nextPacket d with
    -- no sample is left
    | case1 d h =>
      rw [List.drop_eq_nil_of_le (List.getElem?_eq_none_iff.1 h)]
      exact ⟨rfl, rfl⟩
    -- the sample is skipped, and the loop goes on with the next one
    | case2 d s h d' hskip ih =>
      obtain ⟨hlt, hs⟩ := List.getElem?_eq_some_iff.1 h
      rw [List.drop_eq_getElem_cons hlt, hs, List.map_cons, hskip]
      exact ih
    -- the sample answers the call
    | case3 d s h d' r hr =>
      obtain ⟨hlt, hs⟩ := List.getElem?_eq_some_iff.1 h
      rw [List.drop_eq_getElem_cons hlt, hs, List.map_cons, hr]
      refine ⟨?_, rfl⟩
      cases r <;> rfl
  exact ⟨fun d => (hboth d).1, fun d => (hboth d).2⟩

/-- The sample can be read, and gives this data. -/
def Mp4Demux.Holds (d : Mp4Demux) (s : Mp4Sample) (data : List UInt8) : Prop :=
  s.size ≠ 0 ∧ s.size ≤ mp4MaxSample ∧ d.file.seek s.offset = .ok () ∧
    d.file.readExact s.offset s.size = .ok data

theorem Mp4Demux.sample_eq_some_iff {d : Mp4Demux} {s : Mp4Sample} {p : Packet} :
    d.sample s = some (.ok p)
      ↔ ∃ data, d.Holds s data ∧ d.framing.packet data s.pts s.isSync = some p := by
  unfold sample Holds
  split_ifs with hsize
  · refine iff_of_false nofun ?_
    rintro ⟨data, ⟨hne, hle, -⟩, -⟩
    rcases hsize with hzero | hlarge
    · exact hne hzero
    · omega
  obtain ⟨hne, hle⟩ := not_or.1 hsize
  -- only a sample that is read to its end gives a packet
  rcases d.file.seek s.offset with e | ⟨⟩
  · exact iff_of_false nofun (by rintro ⟨data, ⟨-, -, hseek, -⟩, -⟩; cases hseek)
  rcases d.file.readExact s.offset s.size with e | data
  · exact iff_of_false nofun (by rintro ⟨data, ⟨-, -, -, hread⟩, -⟩; cases hread)
  dsimp only
  constructor
  · intro h
    obtain ⟨q, hq, hqp⟩ := Option.map_eq_some_iff.1 h
    cases hqp
    exact ⟨data, ⟨hne, not_lt.1 hle, rfl, rfl⟩, hq⟩
  · rintro ⟨data', ⟨-, -, -, hread⟩, hp⟩
    cases hread
    rw [hp]
    rfl

theorem Mp4Demux.neverEmpty_iff (d : Mp4Demux) :
    NeverEmpty d ↔ ∀ s ∈ d.samples.drop d.next, ∀ data, d.Holds s data →
      ¬ d.framing.Empties data s.isSync := by
  rw [NoshareCover.neverEmpty_iff Mp4Demux.follows]
  constructor
  · intro h s hs data hholds
    rw [← Framing.packet_ne_nil_iff d.framing data s.pts]
    intro p hp
    have hsample : d.sample s = some (.ok p) := sample_eq_some_iff.2 ⟨data, hholds, hp⟩
    exact h p (hsample ▸ List.mem_map_of_mem hs)
  · intro h p hp
    obtain ⟨s, hs, hsample⟩ := List.mem_map.1 hp
    obtain ⟨data, hholds, hpacket⟩ := sample_eq_some_iff.1 hsample
    exact (Framing.packet_ne_nil_iff d.framing data s.pts s.isSync).2 (h s hs data hholds) p hpacket

/-! #### Matroska -/

namespace MkvDemux

variable {μ : Type} [MatroskaFile μ]

/-- A call of `next_frame` finds the end of the file, or takes off what it reads. -/
theorem ahead_cases (m : μ) :
    (MatroskaFile.ahead m = [] ∧ MatroskaFile.ahead (MatroskaFile.nextFrame m).2 = [] ∧
      (MatroskaFile.nextFrame m).1 = .ok none) ∨
    ∃ block, MatroskaFile.ahead m = block :: MatroskaFile.ahead (MatroskaFile.nextFrame m).2 ∧
      (MatroskaFile.nextFrame m).1 = block.map (some ∘ Block.frame) := by
  cases hahead : MatroskaFile.ahead m with
  | nil =>
    obtain ⟨hnext, hleft⟩ := MatroskaFile.nextFrame_of_nil m hahead
    exact .inl ⟨rfl, hleft, hnext⟩
  | cons block blocks =>
    obtain ⟨hnext, hleft⟩ := MatroskaFile.nextFrame_of_cons m block blocks hahead
    rw [hleft]
    exact .inr ⟨block, rfl, hnext⟩

omit [MatroskaFile μ] in
/-- What becomes of a block: it is skipped, or it gives an error or a packet. -/
def item (d : MkvDemux μ) : PipeResult Block → Option (PipeResult Packet)
  | .error e => some (.error ("MKV: " ++ e))
  | .ok b => (d.accept b.frame).map .ok

theorem follows : Feed.Follows heardNext
    fun d : MkvDemux μ => (MatroskaFile.ahead d.mkv).map d.item := by
  have hboth : ∀ d : MkvDemux μ, heard d.nextPacket.1
        = (Feed.next ((MatroskaFile.ahead d.mkv).map d.item)).1
      ∧ (MatroskaFile.ahead d.nextPacket.2.mkv).map d.nextPacket.2.item
        = (Feed.next ((MatroskaFile.ahead d.mkv).map d.item)).2 := by
    intro d
    have hcases := ahead_cases d.mkv
    fun_induction nextPacket d with
    -- reading the block fails
    | case1 d next e h =>
      rw [h] at hcases
      obtain ⟨-, -, hend⟩ | ⟨_ | b, hahead, hblock⟩ := hcases
      · cases hend
      · cases hblock
        rw [hahead]
        exact ⟨rfl, rfl⟩
      · cases hblock
    -- the file is at its end
    | case2 d next h =>
      rw [h] at hcases
      obtain ⟨hahead, hleft, -⟩ | ⟨_ | b, -, hblock⟩ := hcases
      · rw [hahead, hleft]
        exact ⟨rfl, rfl⟩
      · cases hblock
      · cases hblock
    -- the block is of the video track
    | case3 d next f h p hp =>
      rw [h] at hcases
      obtain ⟨-, -, hend⟩ | ⟨_ | b, hahead, hblock⟩ := hcases
      · cases hend
      · cases hblock
      · cases hblock
        have hitem : d.item (.ok b) = some (.ok p) := by rw [item, hp]; rfl
        rw [hahead, List.map_cons, hitem]
        exact ⟨rfl, rfl⟩
    -- a block of another track, or one that is not shown, is skipped
    | case4 d next f h hp ih =>
      rw [h] at hcases
      obtain ⟨-, -, hend⟩ | ⟨_ | b, hahead, hblock⟩ := hcases
      · cases hend
      · cases hblock
      · cases hblock
        have hitem : d.item (.ok b) = none := by rw [item, hp]; rfl
        rw [hahead, List.map_cons, hitem]
        exact ih (ahead_cases next.mkv)
  exact ⟨fun d => (hboth d).1, fun d => (hboth d).2⟩

omit [MatroskaFile μ] in
theorem item_eq_some_iff {d : MkvDemux μ} {block : PipeResult Block} {p : Packet} :
    d.item block = some (.ok p) ↔ ∃ b, block = .ok b ∧ d.accept b.frame = some p := by
  rcases block with e | b
  · refine iff_of_false (fun h => ?_) (by rintro ⟨b, hb, -⟩; cases hb)
    cases h
  · constructor
    · intro h
      obtain ⟨q, hq, hqp⟩ := Option.map_eq_some_iff.1 h
      cases hqp
      exact ⟨b, rfl, hq⟩
    · rintro ⟨b', hb, hp⟩
      cases hb
      rw [item, hp]
      rfl

omit [MatroskaFile μ] in
/-- The block is of the video track, and seen. -/
def Shows (d : MkvDemux μ) (b : Block) : Prop := b.track = d.track ∧ b.invisible = false

omit [MatroskaFile μ] in
theorem accept_ne_nil_iff (d : MkvDemux μ) (b : Block) :
    (∀ p, d.accept b.frame = some p → p.data ≠ [])
      ↔ (d.Shows b → ¬ d.framing.Empties b.data (b.simple && b.keyframe)) := by
  -- only a simple block says whether it is a keyframe
  have hkey : b.frame.isKeyframe.getD false = (b.simple && b.keyframe) := by
    unfold Block.frame
    cases b.simple <;> rfl
  unfold accept
  split_ifs with hskip
  -- another track, or not visible: no packet
  · refine iff_of_true nofun fun hshows => ?_
    rcases hskip with htrack | hinvisible
    · exact absurd hshows.1 htrack
    · exact absurd (hinvisible.symm.trans hshows.2) (by decide)
  · have hshows : d.Shows b := by
      obtain ⟨htrack, hinvisible⟩ := not_or.1 hskip
      exact ⟨not_not.1 htrack, Bool.eq_false_of_not_eq_true hinvisible⟩
    rw [forall_prop_of_true hshows, ← hkey, ← Framing.packet_ne_nil_iff]
    rfl

theorem neverEmpty_iff (d : MkvDemux μ) :
    NeverEmpty d ↔ ∀ b, .ok b ∈ MatroskaFile.ahead d.mkv → d.Shows b →
      ¬ d.framing.Empties b.data (b.simple && b.keyframe) := by
  rw [NoshareCover.neverEmpty_iff follows]
  constructor
  · intro h b hb
    rw [← accept_ne_nil_iff]
    intro p hp
    exact h p (item_eq_some_iff.2 ⟨b, rfl, hp⟩ ▸ List.mem_map_of_mem hb)
  · intro h p hp
    obtain ⟨block, hblock, hitem⟩ := List.mem_map.1 hp
    obtain ⟨b, rfl, hpacket⟩ := item_eq_some_iff.1 hitem
    exact (accept_ne_nil_iff d b).2 (h b hblock) p hpacket

end MkvDemux

/-! ### Both demuxers -/

/-- **A packet has data** just if there is something to decode in its sample, and so a demuxer hands
out no empty packet just if there is in every sample that it still takes. -/
theorem never_empty_iff {μ : Type} [MatroskaFile μ] (f : Framing) (data : List UInt8) (pts : ℕ)
    (keyframe : Bool) (mp4 : Mp4Demux) (mkv : MkvDemux μ) :
    ((∀ p, f.packet data pts keyframe = some p → p.data ≠ []) ↔ ¬ f.Empties data keyframe) ∧
    (NeverEmpty mp4 ↔ ∀ s ∈ mp4.samples.drop mp4.next, ∀ data, mp4.Holds s data →
      ¬ mp4.framing.Empties data s.isSync) ∧
    (NeverEmpty mkv ↔ ∀ b, .ok b ∈ MatroskaFile.ahead mkv.mkv → mkv.Shows b →
      ¬ mkv.framing.Empties b.data (b.simple && b.keyframe)) :=
  ⟨f.packet_ne_nil_iff data pts keyframe, mp4.neverEmpty_iff, mkv.neverEmpty_iff⟩

/-- A file with one sample, which is four zeros. -/
def zerosFile : Mp4File where
  seek _ := .ok ()
  readExact _ size := .ok (List.replicate size 0)
  length_readExact offset size data h := by
    obtain rfl := Except.ok.inj h
    exact List.length_replicate

/-- A unit of no bytes makes an MP4 sample empty; an empty block is handed out from Matroska as it
is. -/
theorem empty_packets :
    ¬ (∀ d : Mp4Demux, NeverEmpty d) ∧ ¬ ∀ d : MkvDemux Clip, NeverEmpty d := by
  constructor
  · intro h
    let info : VideoInfo := { width := 640, height := 360, duration := none, codec := .h264 }
    let s : Mp4Sample := { id := 1, offset := 48, size := 4, compositionTimestamp := 0,
                           timescale := 90000, isSync := false }
    let d : Mp4Demux := { file := zerosFile, info, framing := .nal clipConfig, samples := [s],
                          next := 0 }
    -- four zeros are one unit of length 0
    have hcall : d.nextPacket.1 = .ok (some { pts := 0, keyframe := false, data := [] }) := by
      decide +kernel
    exact h d 0 _ hcall rfl
  · intro h
    let block : Block := { simple := true, keyframe := true, track := 1, timestamp := 0,
                           invisible := false, data := [] }
    let entry : TrackEntry := { number := 1, isVideo := true, codecId := "V_VP9",
                                codecPrivate := none, video := some (640, 360) }
    let info : VideoInfo := { width := 640, height := 360, duration := none, codec := .vp9 }
    let d : MkvDemux Clip := { mkv := { entry, blocks := [.ok block], left := [.ok block] }, track := 1,
                               scaleNs := 1000000, framing := .raw, info }
    -- VP9 is handed on as it is
    have hcall : d.nextPacket.1 = .ok (some { pts := 0, keyframe := true, data := [] }) := by
      decide +kernel
    exact h d 0 _ hcall rfl

end NoshareCover
