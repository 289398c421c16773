import Mathlib.Data.List.DropRight
import Mathlib.Data.List.Induction
import NoshareCover.Core.Video.Nvdec
import NoshareCover.Lib.Run

/-!
# The header that a picture is converted by

A header that looks like the one before keeps the decoder, and with it everything that `display`
goes by.  `converts_by_header_iff` says when every picture of a run has the size, the matrix, the
range and the bit depth of the header in force.
-/

namespace NoshareCover.Nvdec

open Machine Nvdec.State

/-! ### The law -/

def Answer.header? : Answer → Option VideoFormat
  | .accepted f => some f
  | _ => none

/-- The header that was accepted last. -/
def inForce (es : List Event) : Option VideoFormat :=
  ((outputs step init es).filterMap Answer.header?).getLast?

namespace VideoFormat

/-- The size of the display area. -/
def width (f : VideoFormat) : ℤ := f.displayArea.right - f.displayArea.left

def height (f : VideoFormat) : ℤ := f.displayArea.bottom - f.displayArea.top

/-- The two headers agree: the display areas have the same size, where `g`'s is one of `i32` and at
least a pixel, and the colour descriptions mean the same matrix and range. -/
structure Serves (g f : VideoFormat) : Prop where
  width : f.width = g.outWidth
  height : f.height = g.outHeight
  matrix : g.matrix g.outHeight = f.matrix g.outHeight
  fullRange : g.fullRange = f.fullRange

/-- The formats that are decoded. -/
def Supported (f : VideoFormat) : Prop := f.chromaFormat = chroma420 ∨ f.chromaFormat = chromaMono

instance (f : VideoFormat) : Decidable f.Supported := inferInstanceAs (Decidable (_ ∨ _))

end VideoFormat

/-- A supported header. -/
def Event.header? : Event → Option VideoFormat
  | .sequence _ f => if f.Supported then some f else none
  | _ => none

theorem Event.header?_sequence (create : Create) (f : VideoFormat) :
    (Event.sequence create f).header? = if f.Supported then some f else none := rfl

/-- The supported headers, in their order. -/
def headers (es : List Event) : List VideoFormat := es.filterMap Event.header?

/-- Of the headers at the end that look like the last one, the first. -/
def firstAlike (fs : List VideoFormat) : Option VideoFormat :=
  fs.getLast?.bind fun f => (fs.rtakeWhile (·.SameDecoder f)).head?

/-- The driver creates every decoder that it is asked for. -/
def CreationSucceeds (es : List Event) : Prop :=
  ∀ create f, Event.sequence create f ∈ es → ∃ dec, create f.createInfo = .ok dec

/-- The picture is converted as the header says; deep samples are in words of 16 bits. -/
structure ConvertedBy (img : Yuv.YuvImage) (f : VideoFormat) : Prop where
  width : (img.width : ℤ) = f.width
  height : (img.height : ℤ) = f.height
  matrix : img.matrix = f.matrix f.height.toNat
  fullRange : img.fullRange = f.fullRange
  bitDepth : img.bitDepth = if f.high then 16 else 8

/-- The frame is what `display` makes of this picture. -/
def Displays (s : State) (e : Event) (img : Yuv.YuvImage) (frame : DecodedFrame) : Prop :=
  ∃ mapFrame d cpu, e = .display mapFrame d ∧ s.image mapFrame d = .ok img ∧
    Yuv.toBgra img = some cpu ∧ frame = { pts := d.pts, data := .cpu cpu }

/-- **Every frame of the run is converted by the header in force.** -/
def ConvertsByHeader (es : List Event) : Prop :=
  ∀ a e b, es = a ++ e :: b → ∀ frame, ((run step init a).step e).2 = .displayed frame →
    ∃ f img, inForce a = some f ∧ Displays (run step init a) e img frame ∧ ConvertedBy img f

/-! ### One step -/

/-- What the state keeps of the header that its decoder was created for. -/
structure Created (s : State) (g : VideoFormat) : Prop where
  decoder : s.decoder.isSome
  outW : s.outW = g.outWidth
  outH : s.outH = g.outHeight
  highDepth : s.highDepth = g.high

/-- What the state has to do with the header it keeps. -/
def Inv (s : State) : Prop := ∀ g, s.fmt = some g → Created s g

/-- Errors and frames don't matter. -/
theorem Inv.congr {s t : State} (h : Inv s) (hfmt : t.fmt = s.fmt)
    (hdecoder : t.decoder = s.decoder) (houtW : t.outW = s.outW) (houtH : t.outH = s.outH)
    (hhigh : t.highDepth = s.highDepth) :
    Inv t := by
  intro g hg
  obtain ⟨hd, hw, hh, hdepth⟩ := h g (hfmt ▸ hg)
  exact ⟨by rw [hdecoder, hd], houtW.trans hw, houtH.trans hh, hhigh.trans hdepth⟩

/-- Without a decoder there is nothing to keep. -/
theorem Inv.of_none {t : State} (h : t.fmt = none) : Inv t := by
  intro g hg
  cases h.symm.trans hg

theorem Inv.destroyDecoder {s : State} (h : Inv s) : s.destroyDecoder.fmt = none := by
  unfold State.destroyDecoder
  by_cases hsome : s.decoder.isSome = true
  · rw [if_pos hsome]
  · rw [if_neg hsome, Option.eq_none_iff_forall_not_mem]
    exact fun g hg => hsome (h g hg).decoder

/-- What a header does to the header that is kept, and whether it is accepted. -/
inductive Sequenced (s : State) (create : Create) (f : VideoFormat) : State × Answer → Prop where
  /-- The early return accepts the header without keeping it. -/
  | alike {g : VideoFormat} (hg : s.fmt = some g) (hsame : g.SameDecoder f) :
    Sequenced s create f (s, .accepted f)
  | unsupported {e : String} (hdiffers : ∀ g, s.fmt = some g → ¬ g.SameDecoder f)
    (hchroma : ¬ f.Supported) : Sequenced s create f ({ s with error := some e }, .refused e)
  /-- The old decoder goes before the new one is made, so an error leaves none. -/
  | failed {e : String} (hfail : create f.createInfo = .error e) :
    Sequenced s create f ({ s.destroyDecoder with error := some e }, .refused e)
  | created {t : State} (hdiffers : ∀ g, s.fmt = some g → ¬ g.SameDecoder f)
    (hchroma : f.Supported) (hfmt : t.fmt = some f) (hcreated : Created t f) :
    Sequenced s create f (t, .accepted f)

theorem step_sequence (s : State) (create : Create) (f : VideoFormat) :
    Sequenced s create f (s.step (.sequence create f)) := by
  show Sequenced s create f (callback (fun _ => .accepted f) (s.sequence create f))
  unfold State.sequence
  -- the decoder is kept when its size, format and depth stay the same
  by_cases hsame : s.fmt.any (·.SameDecoder f) = true
  · rw [if_pos hsame]
    obtain ⟨g, hg, hlike⟩ := (Option.any_eq_true _ _).1 hsame
    exact .alike hg (of_decide_eq_true hlike)
  have hdiffers : ∀ g, s.fmt = some g → ¬ g.SameDecoder f := by
    intro g hg hlike
    exact hsame ((Option.any_eq_true _ _).2 ⟨g, hg, decide_eq_true hlike⟩)
  rw [if_neg hsame]
  -- other chroma formats are refused before anything is made
  by_cases hchroma : f.chromaFormat ≠ chroma420 ∧ f.chromaFormat ≠ chromaMono
  · rw [if_pos hchroma]
    exact .unsupported hdiffers (not_or.2 hchroma)
  rw [if_neg hchroma]
  dsimp only
  -- the new format is stored after `cuvidCreateDecoder`
  cases hcreate : create f.createInfo with
  | error e => exact .failed hcreate
  | ok dec =>
    refine .created hdiffers ?_ rfl ⟨rfl, rfl, rfl, rfl⟩
    unfold VideoFormat.Supported
    tauto

theorem Inv.sequence {s : State} (h : Inv s) (create : Create) (f : VideoFormat) :
    Inv (s.step (.sequence create f)).1 := by
  have hseq := step_sequence s create f
  generalize s.step (.sequence create f) = r at hseq ⊢
  cases hseq with
  | alike hg hsame => exact h
  | unsupported hdiffers hchroma => exact h.congr rfl rfl rfl rfl rfl
  | failed hfail => exact .of_none h.destroyDecoder
  | created hdiffers hchroma hfmt hcreated =>
    intro g hg
    obtain rfl := Option.some.inj (hfmt.symm.trans hg)
    exact hcreated

/-- A display changes frames and errors only. -/
theorem display_kept (s : State) (mapFrame : MapFrame) (d : ParserDispInfo) :
    ∃ ready, (s.display mapFrame d).2 = { s with ready } := by
  unfold State.display
  rcases s.image mapFrame d with e | img
  · exact ⟨s.ready, rfl⟩
  · dsimp only
    cases Yuv.toBgra img with
    | none => exact ⟨s.ready, rfl⟩
    | some cpu => exact ⟨_, rfl⟩

/-- Only a header changes what is kept of the headers, and only a header is accepted. -/
theorem step_kept (s : State) (e : Event) (he : ∀ create f, e ≠ .sequence create f) :
    (s.step e).2.header? = none ∧ (s.step e).1.fmt = s.fmt ∧ (Inv s → Inv (s.step e).1) := by
  -- only the callback of a sequence header stores a format
  cases e with
  | sequence create f => exact absurd rfl (he create f)
  | decode picture =>
    unfold State.step
    cases s.decoder with
    | none => exact ⟨rfl, rfl, id⟩
    | some dec =>
      dsimp only
      rcases picture dec with e | ⟨⟩
      · exact ⟨rfl, rfl, fun h => h.congr rfl rfl rfl rfl rfl⟩
      · exact ⟨rfl, rfl, id⟩
  | display mapFrame d =>
    obtain ⟨ready, hready⟩ := display_kept s mapFrame d
    show (callback (·.elim .nothing .displayed) (s.display mapFrame d)).2.header? = none
      ∧ (callback (·.elim .nothing .displayed) (s.display mapFrame d)).1.fmt = s.fmt
      ∧ (Inv s → Inv (callback (·.elim .nothing .displayed) (s.display mapFrame d)).1)
    -- whatever is displayed, only `ready` changes
    rcases hd : s.display mapFrame d with ⟨e | _ | frame, t⟩
    all_goals
      obtain rfl : t = { s with ready } := by rw [← hready, hd]
      exact ⟨rfl, rfl, fun h => h.congr rfl rfl rfl rfl rfl⟩
  | parsed r =>
    unfold State.step
    rcases s.error with _ | e
    · rcases r with e | ⟨⟩
      · exact ⟨rfl, rfl, id⟩
      · exact ⟨rfl, rfl, fun h => h.congr rfl rfl rfl rfl rfl⟩
    · exact ⟨rfl, rfl, fun h => h.congr rfl rfl rfl rfl rfl⟩
  | reset parser => exact ⟨rfl, rfl, fun h => h.congr rfl rfl rfl rfl rfl⟩

/-! ### Runs -/

theorem inForce_concat (es : List Event) (e : Event) :
    inForce (es ++ [e]) = ((run step init es).step e).2.header?.or (inForce es) := by
  unfold inForce
  rw [outputs_append, outputs_cons, outputs_nil, List.filterMap_append]
  cases h : ((run State.step init es).step e).2.header? with
  | none =>
    rw [List.filterMap_cons_none h]
    simp
  | some f =>
    rw [List.filterMap_cons_some h]
    simp

theorem inv_run (es : List Event) : Inv (run step init es) := by
  induction es using List.reverseRecOn with
  | nil => exact .of_none rfl
  | append_singleton es e ih =>
    rw [run_concat]
    by_cases he : ∃ create f, e = .sequence create f
    · obtain ⟨create, f, rfl⟩ := he
      exact ih.sequence create f
    · exact (step_kept _ _ fun create f h => he ⟨create, f, h⟩).2.2 ih

theorem headers_concat (es : List Event) (e : Event) :
    headers (es ++ [e]) = headers es ++ e.header?.toList := by
  unfold headers
  rw [List.filterMap_append]
  cases h : e.header? with
  | none => rw [List.filterMap_cons_none h, Option.toList_none, List.filterMap_nil]
  | some f => rw [List.filterMap_cons_some h, Option.toList_some, List.filterMap_nil]

theorem VideoFormat.SameDecoder.congr {f f' : VideoFormat} (h : f.SameDecoder f')
    (g : VideoFormat) : g.SameDecoder f ↔ g.SameDecoder f' := by
  obtain ⟨hwidth, hheight, hchroma, hdepth⟩ := h
  unfold SameDecoder
  rw [hwidth, hheight, hchroma, hdepth]

/-- A header that looks like the last one doesn't change the first of those that do. -/
theorem firstAlike_concat_same {fs : List VideoFormat} {f f' : VideoFormat}
    (hlast : fs.getLast? = some f) (hsame : f.SameDecoder f') :
    firstAlike (fs ++ [f']) = firstAlike fs := by
  obtain ⟨fs, rfl⟩ := List.getLast?_eq_some_iff.1 hlast
  have hself : decide (f'.SameDecoder f') = true := decide_eq_true ⟨rfl, rfl, rfl, rfl⟩
  have hlike : decide (f.SameDecoder f) = true := decide_eq_true ⟨rfl, rfl, rfl, rfl⟩
  have hpred : (fun g : VideoFormat => decide (g.SameDecoder f'))
      = fun g => decide (g.SameDecoder f) :=
    funext fun g => decide_eq_decide.2 (hsame.congr g).symm
  unfold firstAlike
  rw [List.getLast?_concat, List.getLast?_concat, Option.bind_some, Option.bind_some,
    List.rtakeWhile_concat_pos (fun g => decide (g.SameDecoder f')) _ f' hself, hpred,
    List.rtakeWhile_concat_pos (fun g => decide (g.SameDecoder f)) fs f hlike,
    List.head?_append_of_ne_nil _ (List.concat_ne_nil _ _)]

theorem firstAlike_concat_differs {fs : List VideoFormat} {f' : VideoFormat}
    (hlast : ∀ f, fs.getLast? = some f → ¬ f.SameDecoder f') :
    firstAlike (fs ++ [f']) = some f' := by
  have hself : decide (f'.SameDecoder f') = true := decide_eq_true ⟨rfl, rfl, rfl, rfl⟩
  unfold firstAlike
  rw [List.getLast?_concat, Option.bind_some,
    List.rtakeWhile_concat_pos (fun g => decide (g.SameDecoder f')) fs f' hself]
  cases fs using List.reverseRecOn with
  | nil => rfl
  | append_singleton fs f =>
    have hdiffers := hlast f (List.getLast?_concat ..)
    have hunlike : ¬ decide (f.SameDecoder f') = true := by simpa using hdiffers
    rw [List.rtakeWhile_concat_neg (fun g => decide (g.SameDecoder f')) fs f hunlike]
    rfl

/-- What the state keeps of the headers of a run in which every decoder is created. -/
structure Follows (s : State) (force : Option VideoFormat) (fs : List VideoFormat) : Prop where
  force : force = fs.getLast?
  fmt : s.fmt = firstAlike fs
  /-- The decoder was created for a header that looks the same. -/
  alike : ∀ f, fs.getLast? = some f → ∃ g, firstAlike fs = some g ∧ g.SameDecoder f

theorem Follows.concat_differs {s t : State} {force : Option VideoFormat} {fs : List VideoFormat}
    (h : Follows s force fs) {f : VideoFormat} (hdiffers : ∀ g, s.fmt = some g → ¬ g.SameDecoder f)
    (hfmt : t.fmt = some f) : Follows t (some f) (fs ++ [f]) := by
  have hfirst : firstAlike (fs ++ [f]) = some f := by
    refine firstAlike_concat_differs fun f' hf' hsame => ?_
    obtain ⟨g, hg, hlike⟩ := h.alike f' hf'
    exact hdiffers g (h.fmt.trans hg) ((hsame.congr g).1 hlike)
  refine ⟨(List.getLast?_concat ..).symm, hfmt.trans hfirst.symm, fun f' hf' => ⟨f, hfirst, ?_⟩⟩
  obtain rfl := Option.some.inj ((List.getLast?_concat ..).symm.trans hf')
  exact ⟨rfl, rfl, rfl, rfl⟩

theorem Follows.concat_same {s : State} {force : Option VideoFormat} {fs : List VideoFormat}
    (h : Follows s force fs) {f g : VideoFormat} (hg : s.fmt = some g) (hsame : g.SameDecoder f) :
    Follows s (some f) (fs ++ [f]) := by
  -- `g` is the first header of the last stretch, so `last` is like `g`
  have hfirst : firstAlike fs = some g := h.fmt.symm.trans hg
  obtain ⟨last, hlast⟩ : ∃ last, fs.getLast? = some last := by
    cases hfs : fs.getLast? with
    | none =>
      rw [firstAlike, hfs] at hfirst
      cases hfirst
    | some last => exact ⟨last, rfl⟩
  obtain ⟨g', hg', hlike⟩ := h.alike last hlast
  obtain rfl := Option.some.inj (hfirst.symm.trans hg')
  -- being like is transitive, so the stretch goes on with `f`
  have hnew : last.SameDecoder f := by
    obtain ⟨h1, h2, h3, h4⟩ := hlike
    obtain ⟨k1, k2, k3, k4⟩ := hsame
    exact ⟨h1.symm.trans k1, h2.symm.trans k2, h3.symm.trans k3, h4.symm.trans k4⟩
  have hfirst' : firstAlike (fs ++ [f]) = some g :=
    (firstAlike_concat_same hlast hnew).trans hfirst
  refine ⟨(List.getLast?_concat ..).symm, hg.trans hfirst'.symm, fun f' hf' => ⟨g, hfirst', ?_⟩⟩
  obtain rfl := Option.some.inj ((List.getLast?_concat ..).symm.trans hf')
  exact hsame

theorem mem_of_firstAlike {fs : List VideoFormat} {g : VideoFormat} (h : firstAlike fs = some g) :
    g ∈ fs := by
  unfold firstAlike at h
  obtain ⟨last, -, hhead⟩ := Option.bind_eq_some_iff.1 h
  exact (List.rtakeWhile_suffix ..).mem (List.mem_of_head? hhead)

/-- A header of a format that is not supported looks like none that was. -/
theorem Follows.supported {s : State} {force : Option VideoFormat} {es : List Event}
    (h : Follows s force (headers es)) {f g : VideoFormat} (hg : s.fmt = some g)
    (hsame : g.SameDecoder f) : f.Supported := by
  obtain ⟨e, -, he⟩ := List.mem_filterMap.1 (mem_of_firstAlike (h.fmt.symm.trans hg))
  have hg : g.Supported := by
    cases e with
    | sequence create f' =>
      rw [Event.header?_sequence] at he
      split_ifs at he with hsupported
      cases he
      exact hsupported
    | _ => cases he
  unfold VideoFormat.Supported at hg ⊢
  rwa [← hsame.2.2.1]

theorem Follows.step {s : State} {es : List Event} (h : Follows s (inForce es) (headers es))
    (e : Event)
    (hcreate : ∀ create f, e = .sequence create f → ∃ dec, create f.createInfo = .ok dec) :
    Follows (s.step e).1 ((s.step e).2.header?.or (inForce es))
      (headers es ++ e.header?.toList) := by
  by_cases he : ∃ create f, e = .sequence create f
  · obtain ⟨create, f, rfl⟩ := he
    -- the decoder of a header that differs could be made
    obtain ⟨dec, hdec⟩ := hcreate create f rfl
    have hseq := step_sequence s create f
    generalize s.step (.sequence create f) = r at hseq ⊢
    rw [Event.header?_sequence]
    cases hseq with
    | alike hg hsame =>
      rw [if_pos (h.supported hg hsame)]
      exact h.concat_same hg hsame
    | unsupported hdiffers hchroma =>
      rw [if_neg hchroma, Option.toList_none, List.append_nil]
      exact ⟨h.force, h.fmt, h.alike⟩
    -- excluded: every decoder can be made
    | failed hfail => cases hfail.symm.trans hdec
    | created hdiffers hchroma hfmt hcreated =>
      rw [if_pos hchroma]
      exact h.concat_differs hdiffers hfmt
  -- any other event leaves the headers and the format
  · have hne : ∀ create f, e ≠ .sequence create f := fun create f h => he ⟨create, f, h⟩
    obtain ⟨hanswer, hfmt, -⟩ := step_kept s e hne
    have hheader : e.header? = none := by
      cases e with
      | sequence create f => exact absurd rfl (hne create f)
      | _ => rfl
    rw [hanswer, hheader, Option.toList_none, List.append_nil]
    exact ⟨h.force, hfmt.trans h.fmt, h.alike⟩

/-- **What decoder a run has**: that of the first of the headers that look like the last one. -/
theorem follows_run {es : List Event} (hcreate : CreationSucceeds es) :
    Follows (run step init es) (inForce es) (headers es) := by
  induction es using List.reverseRecOn with
  | nil => exact ⟨rfl, rfl, fun f hf => nomatch hf⟩
  | append_singleton es e ih =>
    have hlast := (ih fun create f hf => hcreate create f (List.mem_append_left _ hf)).step e
      fun create f hf => hcreate create f (List.mem_append_right _ (hf ▸ List.mem_singleton_self _))
    rwa [run_concat, inForce_concat, headers_concat]

/-! ### What is displayed -/


theorem callback_answer {α : Type} {answer : α → Answer} {r : Except String α × State}
    {frame : DecodedFrame} (h : (callback answer r).2 = .displayed frame) :
    ∃ v, r.1 = .ok v ∧ answer v = .displayed frame := by
  rcases r with ⟨e | v, t⟩
  · exact nomatch h
  · exact ⟨v, rfl, h⟩

/-- Only `display` displays frames. -/
theorem exists_displays {s : State} {e : Event} {frame : DecodedFrame}
    (h : (s.step e).2 = .displayed frame) : ∃ img, Displays s e img frame := by
  -- only `display` answers with a frame
  cases e with
  | sequence create f =>
    have hstep : (callback (fun _ => .accepted f) (s.sequence create f)).2 = .displayed frame := h
    obtain ⟨n, -, hanswer⟩ := callback_answer hstep
    contradiction
  | decode picture =>
    unfold State.step at h
    dsimp only at h
    split at h
    · contradiction
    · obtain ⟨-, -, hanswer⟩ := callback_answer h
      contradiction
  | display mapFrame d =>
    have hstep : (callback (fun r => r.elim .nothing .displayed) (s.display mapFrame d)).2
        = .displayed frame := h
    obtain ⟨shown, hshown, hanswer⟩ := callback_answer hstep
    unfold State.display at hshown
    split at hshown
    · contradiction
    -- shown: the picture was mapped, and converted
    · rename_i img himg
      split at hshown
      · obtain rfl := Except.ok.inj hshown
        contradiction
      · rename_i cpu hcpu
        obtain rfl := Except.ok.inj hshown
        exact ⟨img, mapFrame, d, cpu, rfl, himg, hcpu, (Answer.displayed.inj hanswer).symm⟩
  | parsed r =>
    unfold State.step at h
    dsimp only at h
    split at h
    · contradiction
    · contradiction
    · contradiction
  | reset parser =>
    have hanswer : Answer.nothing = .displayed frame := h
    contradiction

theorem exists_of_bind {α β : Type} {x : Except String α} {f : α → Except String β} {b : β}
    (h : x >>= f = .ok b) : ∃ a, x = .ok a ∧ f a = .ok b := by
  cases x with
  | error e => exact nomatch h
  | ok a => exact ⟨a, rfl, h⟩

/-- A picture has the size and the depth that the state goes by, and the rest from its header. -/
theorem image_eq {s : State} {mapFrame : MapFrame} {d : ParserDispInfo} {img : Yuv.YuvImage}
    (h : s.image mapFrame d = .ok img) :
    ∃ g, s.fmt = some g ∧ img.width = s.outW ∧ img.height = s.outH
      ∧ img.matrix = g.matrix s.outH ∧ img.fullRange = g.fullRange
      ∧ img.bitDepth = if s.highDepth then 16 else 8 := by
  unfold image at h
  obtain ⟨m, -, h⟩ := exists_of_bind h
  obtain ⟨y, -, h⟩ := exists_of_bind h
  obtain ⟨uv, -, h⟩ := exists_of_bind h
  split at h
  · exact nomatch h
  · rename_i g hg
    obtain rfl := Except.ok.inj h
    exact ⟨g, hg, rfl, rfl, rfl, rfl, rfl⟩

/-- The picture is converted as the header in force says, just if the decoder serves that. -/
theorem convertedBy_iff {s : State} {f g : VideoFormat} {mapFrame : MapFrame} {d : ParserDispInfo}
    {img : Yuv.YuvImage} (himg : s.image mapFrame d = .ok img) (hg : s.fmt = some g)
    (hcreated : Created s g) (hsame : g.SameDecoder f) : ConvertedBy img f ↔ g.Serves f := by
  obtain ⟨g', hg', hwidth, hheight, hmatrix, hrange, hdepth⟩ := image_eq himg
  obtain rfl := Option.some.inj (hg.symm.trans hg')
  -- the bit depth is part of what the early return compares
  have hhigh : g.high = f.high := by
    unfold VideoFormat.high
    rw [hsame.2.2.2]
  rw [hcreated.outW] at hwidth
  rw [hcreated.outH] at hheight hmatrix
  rw [hcreated.highDepth, hhigh] at hdepth
  constructor
  · intro h
    have hsize : f.height = g.outHeight := by rw [← h.height, hheight]
    refine ⟨?_, hsize, ?_, ?_⟩
    · rw [← h.width, hwidth]
    · rw [← hmatrix, h.matrix, hsize, Int.toNat_natCast]
    · rw [← hrange, h.fullRange]
  · intro h
    refine ⟨?_, ?_, ?_, ?_, hdepth⟩
    · rw [hwidth, h.width]
    · rw [hheight, h.height]
    · rw [hmatrix, h.matrix, h.height, Int.toNat_natCast]
    · rw [hrange, h.fullRange]

/-- **When pictures are converted by the header in force.**  In a run in which every decoder is
created all are, just if at each frame displayed the first of the headers that look like the last
one agrees with it in the size of the display area, the matrix and the range. -/
theorem converts_by_header_iff {es : List Event} (hcreate : CreationSucceeds es) :
    ConvertsByHeader es ↔
      ∀ a e b, es = a ++ e :: b → ∀ frame, ((run step init a).step e).2 = .displayed frame →
        ∀ f g, (headers a).getLast? = some f → firstAlike (headers a) = some g → g.Serves f := by
  -- at one frame, by the invariant and what the headers say there
  have hboth : ∀ a e b, es = a ++ e :: b → ∀ frame,
      ((run step init a).step e).2 = .displayed frame →
      ((∃ f img, inForce a = some f ∧ Displays (run step init a) e img frame ∧ ConvertedBy img f)
        ↔ ∀ f g, (headers a).getLast? = some f → firstAlike (headers a) = some g → g.Serves f) := by
    intro a e b hes frame hframe
    have hinv := inv_run a
    have hfollows : Follows (run step init a) (inForce a) (headers a) :=
      follows_run fun create f hf => hcreate create f (hes ▸ List.mem_append_left _ hf)
    rw [hfollows.force, ← hfollows.fmt]
    constructor
    -- `img` was made with `g`, the first of the stretch
    · rintro ⟨f, img, hf, ⟨mapFrame, d, cpu, -, himg, -⟩, hconv⟩ f' g hf' hg
      obtain rfl := Option.some.inj (hf.symm.trans hf')
      obtain ⟨g', hg', hsame⟩ := hfollows.alike f hf
      obtain rfl := Option.some.inj ((hfollows.fmt.symm.trans hg).symm.trans hg')
      exact (convertedBy_iff himg hg (hinv g hg) hsame).1 hconv
    -- a picture is only mapped once there was a header
    · intro hserves
      obtain ⟨img, mapFrame, d, cpu, he, himg, hcpu, hpts⟩ := exists_displays hframe
      obtain ⟨g, hg, -⟩ := image_eq himg
      obtain ⟨f, hf⟩ : ∃ f, (headers a).getLast? = some f := by
        cases hlast : (headers a).getLast? with
        | none =>
          rw [hfollows.fmt, firstAlike, hlast] at hg
          cases hg
        | some f => exact ⟨f, rfl⟩
      obtain ⟨g', hg', hsame⟩ := hfollows.alike f hf
      obtain rfl := Option.some.inj ((hfollows.fmt.symm.trans hg).symm.trans hg')
      exact ⟨f, img, hf, ⟨mapFrame, d, cpu, he, himg, hcpu, hpts⟩,
        (convertedBy_iff himg hg (hinv g hg) hsame).2 (hserves f g hf hg)⟩
  constructor
  · intro h a e b hes frame hframe
    exact (hboth a e b hes frame hframe).1 (h a e b hes frame hframe)
  · intro h a e b hes frame hframe
    exact (hboth a e b hes frame hframe).2 (h a e b hes frame hframe)

/-- The decoder serves the header it was created for, if that has a display area. -/
theorem VideoFormat.serves_self {f : VideoFormat} (hw : 1 ≤ f.width) (hw' : f.width < 2 ^ 31)
    (hh : 1 ≤ f.height) (hh' : f.height < 2 ^ 31) : f.Serves f := by
  have hsize : ∀ n : ℤ, 1 ≤ n → n < 2 ^ 31 → ((max (n.bmod (2 ^ 32)) 1).toNat : ℤ) = n := by
    intro n hn hn'
    rw [Int.bmod_eq_of_le (by omega) (by omega)]
    omega
  exact ⟨(hsize _ hw hw').symm, (hsize _ hh hh').symm, rfl, rfl⟩

/-! ### A header that is taken for the old one -/

/-- Two pixels square in BT.709. -/
def squareFormat : VideoFormat :=
  { codec := 4, progressiveSequence := 1, bitDepthLumaMinus8 := 0, minNumDecodeSurfaces := 4
    codedWidth := 16, codedHeight := 16
    displayArea := { left := 0, top := 0, right := 2, bottom := 2 }
    chromaFormat := chroma420
    videoSignalDescription := { flags := 0, primaries := 1, transfer := 1, matrix := 1 } }

/-- The same in BT.2020. -/
def wideFormat : VideoFormat :=
  { squareFormat with
    videoSignalDescription := { flags := 0, primaries := 9, transfer := 14, matrix := 9 } }

/-- A picture, all of one colour. -/
def plainPicture : MapFrame := fun _ _ _ =>
  .ok { dptr := 0, pitch := 16, memory := fun _ => 90, copyError := fun _ => none }

def plainInfo : ParserDispInfo :=
  { pictureIndex := 0, progressiveFrame := 1, topFieldFirst := 0, repeatFirstField := 0,
    timestamp := 0 }

/-- The header comes again with every loop of the clip. -/
theorem repeated_header_converts :
    ConvertsByHeader [.sequence (fun _ => .ok 1) squareFormat, .display plainPicture plainInfo,
      .sequence (fun _ => .ok 2) squareFormat, .display plainPicture plainInfo] := by
  have hcreate : CreationSucceeds [.sequence (fun _ => .ok 1) squareFormat,
      .display plainPicture plainInfo, .sequence (fun _ => .ok 2) squareFormat,
      .display plainPicture plainInfo] := by
    intro create f hf
    simp only [List.mem_cons, Event.sequence.injEq, reduceCtorEq, List.not_mem_nil, or_false,
      false_or] at hf
    rcases hf with ⟨rfl, rfl⟩ | ⟨rfl, rfl⟩
    · exact ⟨1, rfl⟩
    · exact ⟨2, rfl⟩
  -- both headers are `squareFormat`
  refine (converts_by_header_iff hcreate).2 fun a e b hes frame _ f g hf hg => ?_
  have hall : ∀ f' ∈ headers a, f' = squareFormat := by
    intro f' hf'
    have hmem : f' ∈ headers (a ++ e :: b) := by
      unfold headers
      rw [List.filterMap_append]
      exact List.mem_append_left _ hf'
    rw [← hes, show headers _ = [squareFormat, squareFormat] from rfl] at hmem
    simpa using hmem
  rw [hall f (List.mem_of_getLast? hf), hall g (mem_of_firstAlike hg)]
  exact VideoFormat.serves_self (by decide) (by decide) (by decide) (by decide)

/-- The second header is accepted, and the picture is converted as the first one says. -/
theorem new_matrix_is_ignored :
    ¬ ConvertsByHeader [.sequence (fun _ => .ok 1) squareFormat,
      .sequence (fun _ => .ok 2) wideFormat, .display plainPicture plainInfo] := by
  intro h
  let a : List Event := [.sequence (fun _ => .ok 1) squareFormat,
    .sequence (fun _ => .ok 2) wideFormat]
  -- the last header counts, the picture is converted with the matrix of the first
  have hforce : inForce a = some wideFormat := rfl
  have himage : ((run step init a).image plainPicture plainInfo).toOption.map (·.matrix)
      = some .bt709 := by decide +kernel
  have hframe : ∃ frame, ((run step init a).step (.display plainPicture plainInfo)).2
      = .displayed frame := by
    have hsome : ((run step init a).display plainPicture plainInfo).1.toOption.join.isSome = true := by
      decide +kernel
    show ∃ frame, (callback (fun r => r.elim .nothing .displayed)
      ((run step init a).display plainPicture plainInfo)).2 = .displayed frame
    rcases hd : (run step init a).display plainPicture plainInfo with ⟨e | _ | frame, t⟩
    · rw [hd] at hsome
      cases hsome
    · rw [hd] at hsome
      cases hsome
    · exact ⟨frame, rfl⟩
  obtain ⟨frame, hframe⟩ := hframe
  obtain ⟨f, img, hf, ⟨mapFrame, d, cpu, he, himg, -⟩, hconv⟩ := h a _ [] rfl frame hframe
  cases he
  -- so the two matrices would be one
  obtain rfl := Option.some.inj (hforce.symm.trans hf)
  rw [himg] at himage
  cases hconv.matrix.symm.trans (Option.some.inj himage)

end NoshareCover.Nvdec
