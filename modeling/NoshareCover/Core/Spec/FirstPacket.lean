import NoshareCover.Core.Spec.Annexb
import NoshareCover.Core.Video.Demux

/-!
# The first packet of a pass

The parameter sets are in front of the packets that are marked as keyframes, and a block that does
not say whether it is a keyframe is not marked.  So a pass starts with the parameter sets only if its
first packet comes from a SimpleBlock (`starts_with_sets_iff`).
-/

namespace NoshareCover

open Bitstream

/-- A decoder can start here: the packet is a keyframe, and all parameter sets are in front. -/
def StartsDecoding (cfg : NalConfig) (p : Packet) : Prop :=
  p.keyframe = true ∧ cfg.parameterSets.flatMap annexb <+: p.data

/-- A converted keyframe has the parameter sets in front. -/
theorem prefix_of_toAnnexb {sample out : List UInt8} {cfg : NalConfig}
    (h : toAnnexb sample cfg true = some out) : cfg.parameterSets.flatMap annexb <+: out := by
  obtain ⟨nals, -, -, rfl⟩ := (annexbLoop_eq_some_iff _ _ _).1 h
  exact List.prefix_append _ _

namespace MkvDemux

variable {μ : Type} [MatroskaFile μ] {d e : MkvDemux μ}

/-! ### One packet -/

/-- The next packet and the block it is made of, if the file can be read so far. -/
def firstPacket (accept : MkvFrame → Option Packet) : List (PipeResult Block) → Option (Block × Packet)
  | .ok b :: blocks =>
    match accept b.frame with
    | some p => some (b, p)
    | none => firstPacket accept blocks
  | _ => none

theorem accept_of_firstPacket {accept : MkvFrame → Option Packet} {blocks : List (PipeResult Block)}
    {b : Block} {p : Packet} (h : firstPacket accept blocks = some (b, p)) :
    accept b.frame = some p := by
  fun_induction firstPacket accept blocks with
  | case1 b' blocks q hq =>
    cases h
    exact hq
  | case2 b' blocks hskip ih => exact ih h
  | case3 => cases h

theorem nextPacket_eq (d : MkvDemux μ) :
    d.nextPacket.1 = match (MatroskaFile.nextFrame d.mkv).1 with
      | .error e => .error ("MKV: " ++ e)
      | .ok none => .ok none
      | .ok (some f) =>
        match d.accept f with
        | some p => .ok (some p)
        | none => nextPacket { d with mkv := (MatroskaFile.nextFrame d.mkv).2 } |>.1 := by
  rw [nextPacket]
  -- one case a result of the container
  split
  · next e hnext => rw [hnext]
  · next hnext => rw [hnext]
  · next f hnext =>
    rw [hnext]
    dsimp only
    cases d.accept f <;> rfl

/-- A packet is made of the first block that is not skipped. -/
theorem nextPacket_eq_some_iff {p : Packet} :
    d.nextPacket.1 = .ok (some p)
      ↔ ∃ b, firstPacket d.accept (MatroskaFile.ahead d.mkv) = some (b, p) := by
  rw [nextPacket_eq]
  -- the blocks ahead, one by one
  induction hahead : MatroskaFile.ahead d.mkv generalizing d with
  | nil =>
    rw [(MatroskaFile.nextFrame_of_nil _ hahead).1]
    exact iff_of_false (by simp) (by simp [firstPacket])
  | cons block blocks ih =>
    obtain ⟨hnext, hblocks⟩ := MatroskaFile.nextFrame_of_cons _ _ _ hahead
    rw [hnext]
    cases block with
    | error e => exact iff_of_false (by simp [Except.map]) (by simp [firstPacket])
    | ok b =>
      show (match d.accept b.frame with | some q => _ | none => _) = _ ↔ _
      rw [firstPacket]
      cases haccept : d.accept b.frame with
      | some q => simp
      -- a block that is skipped: the call goes on with the rest
      | none =>
        dsimp only
        rw [nextPacket_eq]
        exact ih hblocks

omit [MatroskaFile μ] in
/-- What a packet of a block has in front is decided by the block. -/
theorem startsDecoding_iff {cfg : NalConfig} (hcfg : d.framing = .nal cfg) {b : Block} {p : Packet}
    (h : d.accept b.frame = some p) :
    StartsDecoding cfg p ↔ b.simple = true ∧ b.keyframe = true := by
  unfold accept at h
  split_ifs at h with hskip
  rw [hcfg] at h
  obtain ⟨data, hdata, rfl⟩ := Option.map_eq_some_iff.1 h
  have hkey : b.frame.isKeyframe.getD false = true ↔ b.simple = true ∧ b.keyframe = true := by
    unfold Block.frame
    cases b.simple <;> simp
  rw [← hkey]
  refine ⟨And.left, fun hkeyframe => ⟨hkeyframe, ?_⟩⟩
  rw [hkeyframe] at hdata
  exact prefix_of_toAnnexb hdata

/-! ### Passes -/

/-- The demuxer `d` after calls in any order. -/
inductive Reaches (d : MkvDemux μ) : MkvDemux μ → Prop
  | refl : Reaches d d
  | nextPacket {e : MkvDemux μ} : Reaches d e → Reaches d e.nextPacket.2
  | rewind {e : MkvDemux μ} : Reaches d e → Reaches d e.rewind.2

/-- The demuxer that was just opened as `d`, or rewound since. -/
inductive AtStart (d : MkvDemux μ) : MkvDemux μ → Prop
  | opened : AtStart d d
  | rewound {e : MkvDemux μ} : Reaches d e → e.rewind.1 = .ok () → AtStart d e.rewind.2

/-- Every call accepts the same blocks of the same file. -/
theorem Reaches.keeps (h : Reaches d e) : e.accept = d.accept
    ∧ MatroskaFile.start e.mkv = MatroskaFile.start d.mkv := by
  induction h with
  | refl => exact ⟨rfl, rfl⟩
  | @nextPacket e _ ih =>
    obtain ⟨-, hframing, htrack, hscale, hstart⟩ := nextPacket_keeps e
    refine ⟨?_, hstart.trans ih.2⟩
    rw [← ih.1]
    unfold accept
    rw [hframing, htrack, hscale]
  | rewind _ ih => exact ⟨ih.1, (MatroskaFile.start_seek _ 0).trans ih.2⟩

theorem AtStart.reads (hopened : MatroskaFile.ahead d.mkv = MatroskaFile.start d.mkv)
    (h : AtStart d e) : e.accept = d.accept ∧ MatroskaFile.ahead e.mkv = MatroskaFile.start d.mkv := by
  cases h with
  | opened => exact ⟨rfl, hopened⟩
  | @rewound e hreaches hrewind =>
    obtain ⟨haccept, hstart⟩ := hreaches.keeps
    have hseek : (MatroskaFile.seek e.mkv 0).1 = .ok () := by
      unfold rewind at hrewind
      cases hresult : (MatroskaFile.seek e.mkv 0).1 with
      | error err =>
        rw [hresult] at hrewind
        cases hrewind
      | ok _ => rfl
    exact ⟨haccept, (MatroskaFile.ahead_seek e.mkv hseek).trans hstart⟩

/-- An open demuxer reads the file that it was opened for. -/
theorem mkv_of_open {mkv : μ} (h : MkvDemux.open (.ok (.ok mkv)) = .ok d) :
    d.mkv = mkv := by
  unfold MkvDemux.open at h
  dsimp only at h
  -- every step of `open` that succeeds keeps the file
  cases hentry : (MatroskaFile.tracks mkv).find? TrackEntry.isVideo with
  | none =>
    rw [hentry] at h
    cases h
  | some entry =>
    rw [hentry] at h
    dsimp only at h
    cases hframing : Framing.forCodec (codecFromMkv entry.codecId) entry.codecPrivate with
    | error e =>
      rw [hframing] at h
      cases h
    | ok framing =>
      rw [hframing] at h
      cases h
      rfl

end MkvDemux

/-! ### A clip with one keyframe -/

/-- A file in memory. -/
structure Clip where
  entry : TrackEntry
  blocks : List (PipeResult Block)
  left : List (PipeResult Block)

instance : MatroskaFile Clip where
  tracks c := [c.entry]
  timestampScale _ := 1000000
  duration _ := none
  nextFrame c :=
    match c.left with
    | [] => (.ok none, c)
    | block :: blocks => (block.map (some ∘ Block.frame), { c with left := blocks })
  seek c _ := (.ok (), { c with left := c.blocks })
  start := Clip.blocks
  ahead := Clip.left
  nextFrame_of_nil c h := by
    rw [h]
    exact ⟨rfl, h⟩
  nextFrame_of_cons c block blocks h := by
    rw [h]
    exact ⟨rfl, rfl⟩
  start_nextFrame c := by cases c.left <;> rfl
  start_seek _ _ := rfl
  ahead_seek _ _ := rfl

def clipAvcc : List UInt8 := [1, 0x64, 0, 0x1f, 0xff, 0xe1, 0, 1, 0x67, 1, 0, 1, 0x68]

def clipConfig : NalConfig :=
  { lengthSize := 4, lengthSize_valid := by decide, parameterSets := [[0x67], [0x68]] }

/-- One keyframe, in a SimpleBlock or in a BlockGroup. -/
def keyframeClip (simple : Bool) : Clip :=
  let block : Block := { simple, keyframe := true, track := 1, timestamp := 0, invisible := false,
                         data := [0, 0, 0, 1, 0x65] }
  { entry := { number := 1, isVideo := true, codecId := "V_MPEG4/ISO/AVC",
               codecPrivate := some clipAvcc, video := none },
    blocks := [.ok block], left := [.ok block] }

def keyframeDemux (simple : Bool) : MkvDemux Clip :=
  { mkv := keyframeClip simple, track := 1, scaleNs := 1000000,
    info := { width := 0, height := 0, duration := none, codec := .h264 },
    framing := .nal clipConfig }

theorem open_keyframeClip (simple : Bool) :
    MkvDemux.open (.ok (.ok (keyframeClip simple))) = .ok (keyframeDemux simple) := by
  -- the config parses, so the framing has its sets
  have hparse : parseAvcc clipAvcc = some clipConfig := by decide +kernel
  have hcodec : codecFromMkv "V_MPEG4/ISO/AVC" = .h264 := by decide +kernel
  have hframing : Framing.forCodec .h264 (some clipAvcc) = .ok (.nal clipConfig) := by
    unfold Framing.forCodec
    dsimp only
    rw [Option.bind_some, hparse]
  have hentry : (MatroskaFile.tracks (keyframeClip simple)).find? TrackEntry.isVideo
      = some (keyframeClip simple).entry := rfl
  have hcodec' : codecFromMkv (keyframeClip simple).entry.codecId = .h264 := hcodec
  have hframing' : Framing.forCodec .h264 (keyframeClip simple).entry.codecPrivate
      = .ok (.nal clipConfig) := hframing
  unfold MkvDemux.open
  dsimp only
  rw [hentry]
  dsimp only
  rw [hcodec', hframing']
  rfl

/-! ### All passes -/

/-- **Every pass starts with the parameter sets** if and only if the first block that is not skipped
is a SimpleBlock with a keyframe. -/
theorem starts_with_sets_iff {μ : Type} [MatroskaFile μ] {mkv : μ} {d : MkvDemux μ}
    {cfg : NalConfig} (hopen : MkvDemux.open (.ok (.ok mkv)) = .ok d)
    (hstart : MatroskaFile.ahead mkv = MatroskaFile.start mkv) (hcfg : d.framing = .nal cfg) :
    (∀ e, MkvDemux.AtStart d e → ∀ p, e.nextPacket.1 = .ok (some p) → StartsDecoding cfg p)
      ↔ ∀ b p, MkvDemux.firstPacket d.accept (MatroskaFile.start mkv) = some (b, p) →
          b.simple = true ∧ b.keyframe = true := by
  have hmkv := MkvDemux.mkv_of_open hopen
  have hopened : MatroskaFile.ahead d.mkv = MatroskaFile.start d.mkv := by rw [hmkv, hstart]
  constructor
  -- the first packet of the opened file is one that is read at its start
  · intro hstarts b p hfirst
    have hnext : d.nextPacket.1 = .ok (some p) :=
      MkvDemux.nextPacket_eq_some_iff.2 ⟨b, by rw [hopened, hmkv, hfirst]⟩
    exact (MkvDemux.startsDecoding_iff hcfg (MkvDemux.accept_of_firstPacket hfirst)).1
      (hstarts d .opened p hnext)
  -- every packet that is read at the start is that one
  · intro hblock e he p hnext
    obtain ⟨haccept, hahead⟩ := he.reads hopened
    obtain ⟨b, hfirst⟩ := MkvDemux.nextPacket_eq_some_iff.1 hnext
    rw [haccept, hahead, hmkv] at hfirst
    exact (MkvDemux.startsDecoding_iff hcfg (MkvDemux.accept_of_firstPacket hfirst)).2
      (hblock b p hfirst)

/-- In a SimpleBlock the keyframe has its parameter sets. -/
theorem simple_block_starts :
    MkvDemux.open (.ok (.ok (keyframeClip true))) = .ok (keyframeDemux true)
      ∧ ∀ e, MkvDemux.AtStart (keyframeDemux true) e →
        ∀ p, e.nextPacket.1 = .ok (some p) → StartsDecoding clipConfig p := by
  have hopen := open_keyframeClip true
  refine ⟨hopen, (starts_with_sets_iff hopen rfl rfl).2 fun b p hfirst => ?_⟩
  change (match (keyframeDemux true).accept _ with | some q => _ | none => none) = some (b, p)
    at hfirst
  -- the only block is the first one
  cases haccept : (keyframeDemux true).accept _ with
  | none =>
    rw [haccept] at hfirst
    cases hfirst
  | some q =>
    rw [haccept] at hfirst
    cases hfirst
    exact ⟨rfl, rfl⟩

/-- In a BlockGroup it has none. -/
theorem block_group_without_sets :
    ¬ ∀ (d : MkvDemux Clip) (cfg : NalConfig),
      MkvDemux.open (.ok (.ok (keyframeClip false))) = .ok d → d.framing = .nal cfg →
      ∀ e, MkvDemux.AtStart d e → ∀ p, e.nextPacket.1 = .ok (some p) → StartsDecoding cfg p := by
  intro hstarts
  have hnext : (keyframeDemux false).nextPacket.1
      = .ok (some { pts := 0, keyframe := false, data := [0, 0, 0, 1, 0x65] }) := by decide +kernel
  have hpacket := hstarts _ clipConfig (open_keyframeClip false) rfl _ .opened _ hnext
  exact absurd hpacket.1 Bool.false_ne_true

end NoshareCover
