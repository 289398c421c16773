import NoshareCover.Shim.Spec.ClosingCover

/-!
# The hold of a closing cover

A closing cover that follows a fade-out stays for the hold once the fade-out is over.  A frame that
finds the fade-out done starts the hold at that moment, but one that finds it gone starts the hold
where the search for a fade-out ended.  `cover_held_after_fade` says that the hold runs from the end
of the fade-out unless a frame comes upon it gone that way.
-/

namespace NoshareCover

open Machine

/-- A closing cover that was bound to a fade-out: what it stands for and until when it looked for
the fade-out, the time at which that ends, and the hold. -/
structure BoundCover where
  owner : Key
  mon : MonitorId
  rules : RuleValues
  bindUntil : Instant
  fade : FadeId
  ends : Instant
  hold : ℕ

namespace BoundCover

variable (x : BoundCover)

def Is (c : Closing) : Prop :=
  c.owner = x.owner ∧ c.mon = x.mon ∧ c.rules = x.rules ∧ c.bindUntil = x.bindUntil

/-- The cover is still bound to the fade-out, and its hold has not started. -/
def Follows (c : Closing) : Prop := x.Is c ∧ c.holdUntil = none ∧ c.fade = some x.fade

/-- The monitor is captured throughout, and its frames find the fade-out running until it ends.
After that it is done for a while, and then gone. -/
def Knows (s : World) : ShimEvent → Prop
  | .tick mgr _ => mgr.beingCaptured x.mon = true
  | .frame fr => fr.mon.id = x.mon → x.hold ≤ holdFor fr.cfg x.rules
      ∧ ((∃ f, fr.desktop.fadeout? x.fade = some f ∧ f.done = false) ↔ s.now < x.ends)
  | _ => True

/-- No frame finds the fade-out gone while the cover is still bound to it, unless it ended while
covers were still looking for one, or the hold after it is over already. -/
def Careful (s : World) : ShimEvent → Prop
  | .frame fr => fr.mon.id = x.mon → fr.desktop.fadeout? x.fade = none →
      (∃ c ∈ s.shim.closing, x.Follows c) → x.ends ≤ x.bindUntil ∨ x.ends + x.hold ≤ s.now
  | _ => True

/-- The cover goes on until the hold after the fade-out is over: its hold ends then or later, or
has not started and will not start too early. -/
def Lasts (now : Instant) (c : Closing) : Prop :=
  x.Is c ∧ match c.holdUntil with
    | some t => x.ends + x.hold ≤ t
    | none => c.fade = some x.fade ∨ x.ends ≤ now ∧ x.ends ≤ x.bindUntil

/-- The hold is over, or the cover is there. -/
def Inv (s : World) : Prop := x.ends + x.hold ≤ s.now ∨ ∃ c ∈ s.shim.closing, x.Lasts s.now c

end BoundCover

/-- The draws have the closing cover over its box.  A transparent cover is not drawn, its surface is
left out of the image; and a box less than a pixel wide or high has nothing to draw over. -/
def Closing.Drawn (c : Closing) (fr : CaptureFrame) (ops : List PaintOp) : Prop :=
  let box := captureBox fr.mon fr.capturePos (atLeast5 c.box)
  (∃ op, .cover op ∈ ops ∧ op.subject = .closing c.owner ∧ op.rules = c.rules ∧ op.box = box
      ∧ op.area = coverArea fr.region box .empty)
    ∨ (.leftOut (.closing c.owner) ∈ ops ∧ transparentCover fr.cfg c.rules = true)
    ∨ box.w < 1 ∨ box.h < 1

/-! ### One cover in one frame -/

section Follow

variable {x : BoundCover} {c : Closing} {cfg : ShimConfig} {d : Desktop} {closing : List Closing}
  {mon : MonitorId} {now : Instant}

theorem follow_bindUntil (c : Closing) (cfg : ShimConfig) (d : Desktop) (closing : List Closing)
    (mon : MonitorId) (now : Instant) :
    (c.follow cfg d closing mon now).bindUntil = c.bindUntil := by
  unfold Closing.follow
  dsimp only
  split_ifs <;> (try split) <;> (try split_ifs) <;> rfl

theorem BoundCover.Is.follow (h : x.Is c) : x.Is (c.follow cfg d closing mon now) := by
  obtain ⟨howner, hmon, -, hrules⟩ := follow_frame c cfg d closing mon now
  obtain ⟨h1, h2, h3, h4⟩ := h
  exact ⟨howner.trans h1, hmon.trans h2, hrules.trans h3,
    (follow_bindUntil c cfg d closing mon now).trans h4⟩

variable (cfg d closing mon now) in
/-- What a frame does to a cover whose hold has not started: it starts the hold now, because the
cover's fade-out is done; or it starts it where the search ended, because there is none; or it
leaves the cover with its fade-out, or with one that the search found or did not find. -/
theorem follow_unheld (hhold : c.holdUntil = none) :
    ((c.follow cfg d closing mon now).holdUntil = some (now + holdFor cfg c.rules)
        ∧ ∃ f, c.fade.bind d.fadeout? = some f ∧ f.done = true)
      ∨ ((c.follow cfg d closing mon now).holdUntil = some (c.bindUntil + holdFor cfg c.rules)
        ∧ c.fade.bind d.fadeout? = none)
      ∨ ((c.follow cfg d closing mon now).holdUntil = none
        ∧ ((c.follow cfg d closing mon now).fade = c.fade
          ∨ c.fade.bind d.fadeout? = none)) := by
  unfold Closing.follow
  rw [hhold]
  -- the fade-out that the cover is bound to is there, or it is looked for again
  cases hlook : c.fade.bind d.fadeout? with
  | some f =>
    simp only [Option.isSome_none, Option.isNone_some, Bool.false_and, Bool.false_eq_true, if_false]
    cases hdone : f.done with
    | true => exact .inl ⟨rfl, f, rfl, hdone⟩
    | false => exact .inr (.inr ⟨hhold, .inl rfl⟩)
  | none =>
    simp only [Option.isSome_none, Option.isNone_none, Bool.true_and, Bool.false_eq_true, if_false,
      decide_eq_true_eq]
    -- after `bindUntil` the search is over
    by_cases hnow : now < c.bindUntil
    · simp only [if_pos hnow]
      cases hfind : findFadeFor d closing c mon with
      | some f =>
        -- the search only finds what is running
        have hfits := (fits_of_findFadeFor hfind).2
        have hrunning : f.done = false := by
          unfold fadeFits at hfits
          simp only [Bool.and_eq_true, Bool.not_eq_true'] at hfits
          exact hfits.1.1.1
        simp only [hrunning, Bool.false_eq_true, if_false]
        exact .inr (.inr ⟨trivial, .inr trivial⟩)
      | none =>
        have hlate : ¬ c.bindUntil ≤ now := not_le.2 hnow
        simp only [if_neg hlate]
        exact .inr (.inr ⟨trivial, .inr trivial⟩)
    · simp only [if_neg hnow, if_pos (not_lt.1 hnow)]
      exact .inr (.inl ⟨trivial, trivial⟩)

/-- A frame of the monitor leaves the cover one that lasts, unless it comes upon the fade-out
gone. -/
theorem BoundCover.Lasts.follow (h : x.Lasts now c) (hhold : x.hold ≤ holdFor cfg x.rules)
    (hlife : (∃ f, d.fadeout? x.fade = some f ∧ f.done = false) ↔ now < x.ends)
    (hgone : d.fadeout? x.fade = none → x.Follows c → x.ends ≤ x.bindUntil) :
    x.Lasts now (c.follow cfg d closing mon now) := by
  obtain ⟨his, hlasts⟩ := h
  refine ⟨his.follow, ?_⟩
  cases hunheld : c.holdUntil with
  | some t =>
    -- a hold that has started is left alone
    have hsame : c.follow cfg d closing mon now = c := by
      unfold Closing.follow
      rw [hunheld]
      rfl
    rw [hsame]
    exact hlasts
  | none =>
    rw [hunheld] at hlasts
    have hrules : c.rules = x.rules := his.2.2.1
    have hbind : c.bindUntil = x.bindUntil := his.2.2.2
    -- once the fade-out that the cover follows is not running, it has ended
    have hover : (∀ f, c.fade.bind d.fadeout? = some f → f.done = true) → x.ends ≤ now := by
      intro hstop
      rcases hlasts with hfade | ⟨hends, -⟩
      · by_contra hlt
        obtain ⟨f, hf, hrunning⟩ := hlife.2 (not_le.1 hlt)
        rw [hfade] at hstop
        have hdone := hstop f hf
        rw [hrunning] at hdone
        exact Bool.false_ne_true hdone
      · exact hends
    -- a hold that starts at the end of the search is long enough only then
    have hearly : c.fade.bind d.fadeout? = none → x.ends ≤ x.bindUntil := by
      intro hnone
      rcases hlasts with hfade | ⟨-, hbound⟩
      · refine hgone ?_ ⟨his, hunheld, hfade⟩
        rw [hfade] at hnone
        exact hnone
      · exact hbound
    rcases follow_unheld cfg d closing mon now hunheld with
      ⟨hset, f, hf, hdone⟩ | ⟨hset, hnone⟩ | ⟨hset, hfade | hnone⟩
    · have hends : x.ends ≤ now := by
        refine hover fun f' hf' => ?_
        rw [← Option.some.inj (hf.symm.trans hf')]
        exact hdone
      rw [hset, hrules]
      exact Nat.add_le_add hends hhold
    · have hends := hearly hnone
      rw [hset, hrules, hbind]
      exact Nat.add_le_add hends hhold
    · rw [hset, hfade]
      exact hlasts
    · rw [hset]
      refine .inr ⟨hover fun f hf => ?_, hearly hnone⟩
      rw [hnone] at hf
      exact absurd hf (Option.some_ne_none f).symm

/-- A cover that lasts is drawn for a client that does not see the surface, until the hold is
over. -/
theorem BoundCover.Lasts.drawn {fr : CaptureFrame} {left : Bool} {ops : List PaintOp}
    (h : x.Lasts now c) (hnow : now < x.ends + x.hold) (hsees : fr.client.sees x.rules = false)
    (hops : ∀ op ∈ c.paint fr left now, op ∈ ops) : c.Drawn fr ops := by
  -- its hold is not over
  have hopen : (c.holdUntil.any fun t => decide (t ≤ now)) = false := by
    rw [Option.any_eq_false_iff_get]
    intro hsome
    obtain ⟨t, ht⟩ := Option.isSome_iff_exists.1 hsome
    have hlasts := h.2
    rw [ht] at hlasts
    simp only [ht, Option.get_some]
    have hle : x.ends + x.hold ≤ t := hlasts
    exact decide_eq_false (not_le.2 (hnow.trans_le hle))
  unfold Closing.paint at hops
  rw [h.1.2.2.1] at hops
  simp only [hopen, hsees, Bool.false_eq_true, if_false] at hops
  unfold Closing.Drawn
  rw [h.1.2.2.1]
  split_ifs at hops with hleft hsmall hcapture
  · rw [Bool.and_eq_true] at hleft
    exact .inr (.inl ⟨hops _ (List.mem_singleton_self _), hleft.2⟩)
  · exact .inr (.inr hsmall)
  · exact .inl ⟨_, hops _ (List.mem_singleton_self _), rfl, rfl, rfl, rfl⟩
  · exact .inl ⟨_, hops _ (List.mem_singleton_self _), rfl, rfl, rfl, rfl⟩

end Follow

/-! ### The cover in a run -/

section Run

variable {x : BoundCover} {s : World}

/-- A frame of the cover's monitor keeps the cover, and draws it for a client that does not see the
surface. -/
theorem lasts_frame {fr : CaptureFrame} (hm : fr.mon.id = x.mon) (hknows : x.Knows s (.frame fr))
    (hcareful : x.Careful s (.frame fr)) (hnow : s.now < x.ends + x.hold)
    (h : ∃ c ∈ s.shim.closing, x.Lasts s.now c) :
    ∃ c ∈ (s.step (.frame fr)).1.shim.closing, x.Lasts s.now c
      ∧ (fr.client.sees x.rules = false → c.Drawn fr (s.step (.frame fr)).2) := by
  obtain ⟨c, hc, hlasts⟩ := h
  obtain ⟨hhold, hlife⟩ := hknows hm
  obtain ⟨hclosing, hops⟩ := s.closing_frame fr
  -- the cover is still tracked, so the loop over the closing covers comes to it
  rw [hclosing]
  obtain ⟨-, -, hfollow⟩ := paintClosingLoop_follow fr (s.shim.paintInput fr s.now).left s.now []
    (s.shim.remember fr (s.shim.paintInput fr s.now)
      (s.shim.paintHidden fr (s.shim.paintInput fr s.now)).2).closing
  obtain ⟨closing, -, hmem, hpaint⟩ := hfollow c (mem_tracked_of_mem hc) (hlasts.1.2.1.trans hm.symm)
  have hlasts' : x.Lasts s.now (c.follow fr.cfg fr.desktop closing fr.mon.id s.now) := by
    -- when its fade-out is gone, the run has been careful about that
    refine hlasts.follow hhold hlife fun hgone hfollows => ?_
    exact (hcareful hm hgone ⟨c, hc, hfollows⟩).resolve_right (not_le.2 hnow)
  exact ⟨_, hmem, hlasts', fun hsees =>
    hlasts'.drawn hnow hsees fun op hop => hops op (hpaint op hop)⟩

theorem BoundCover.Lasts.later {now later : Instant} {c : Closing} (h : x.Lasts now c)
    (hle : now ≤ later) : x.Lasts later c := by
  refine ⟨h.1, ?_⟩
  have hlasts := h.2
  cases hhold : c.holdUntil with
  | some t =>
    rw [hhold] at hlasts
    exact hlasts
  | none =>
    rw [hhold] at hlasts
    exact hlasts.imp_right fun hends => ⟨hends.1.trans hle, hends.2⟩

/-- A close event adds closing covers, and takes none. -/
theorem mem_closing_startClosing {s : Shim} {mgr : Screenshare} {c c' : Closing}
    (hc : c ∈ s.closing) : c ∈ (s.startClosing mgr c').closing := by
  rcases startClosing_spec s mgr c' with ⟨-, hclosing, -⟩ | ⟨-, hsame⟩
  · rw [hclosing]
    exact List.mem_append_left _ hc
  · rw [hsame]
    exact hc

theorem mem_closing_close {e : ShimEvent} {c : Closing} (he : e.isClose = true)
    (hc : c ∈ s.shim.closing) : c ∈ (s.step e).1.shim.closing := by
  rw [World.step_close s he]
  cases e.closing? s.now with
  | none => exact hc
  | some p => exact mem_closing_startClosing hc

/-- A tick keeps a closing cover of a captured monitor until its hold is over. -/
theorem mem_closing_pumpTick {s : Shim} {mgr : Screenshare} {animating : Bool} {now : Instant}
    {c : Closing} (hc : c ∈ s.closing) (hcap : mgr.beingCaptured c.mon = true)
    (hopen : (c.holdUntil.all fun t => decide (now < t)) = true) :
    c ∈ (s.pumpTick mgr animating now).closing := by
  unfold Shim.pumpTick
  split_ifs with hpump hany
  · exact hc
  · exact List.mem_filter.2 ⟨hc, by rw [keepClosing, hcap, hopen]; rfl⟩
  · refine absurd ?_ hany
    simp only [Bool.or_eq_true, List.any_eq_true]
    exact .inr ⟨c, hc, hcap⟩

/-- One step. -/
theorem BoundCover.Inv.step (h : x.Inv s) {e : ShimEvent} (hknows : x.Knows s e)
    (hcareful : x.Careful s e) : x.Inv (s.step e).1 := by
  rcases h with hover | hex
  · left
    -- a hold that is over stays over
    have hle : s.now ≤ (s.step e).1.now := by
      cases e with
      | wait d => exact Nat.le_add_right _ _
      | _ => exact le_rfl
    exact hover.trans hle
  by_cases hover : x.ends + x.hold ≤ (s.step e).1.now
  · exact .inl hover
  right
  cases e with
  | wait d =>
    obtain ⟨c, hc, hlasts⟩ := hex
    exact ⟨c, hc, hlasts.later (Nat.le_add_right _ _)⟩
  | tick mgr animating =>
    obtain ⟨c, hc, hlasts⟩ := hex
    refine ⟨c, mem_closing_pumpTick hc ?_ ?_, hlasts⟩
    · rw [hlasts.1.2.1]
      exact hknows
    · -- the tick drops covers whose hold is over, and this one's is not
      have hends := hlasts.2
      cases hhold : c.holdUntil with
      | none => rfl
      | some t =>
        rw [hhold] at hends
        have hle : x.ends + x.hold ≤ t := hends
        have hlt : s.now < x.ends + x.hold := not_le.1 hover
        exact decide_eq_true (hlt.trans_le hle)
  | frame fr =>
    by_cases hm : fr.mon.id = x.mon
    · obtain ⟨c, hc, hlasts, -⟩ := lasts_frame hm hknows hcareful (not_le.1 hover) hex
      exact ⟨c, hc, hlasts⟩
    · -- a frame of another monitor passes over the cover
      obtain ⟨c, hc, hlasts⟩ := hex
      obtain ⟨hclosing, -⟩ := s.closing_frame fr
      refine ⟨c, ?_, hlasts⟩
      rw [hclosing]
      refine (paintClosingLoop_follow fr _ s.now [] _).2.1 c (mem_tracked_of_mem hc) ?_
      rw [hlasts.1.2.1]
      exact Ne.symm hm
  | _ =>
    obtain ⟨c, hc, hlasts⟩ := hex
    exact ⟨c, mem_closing_close rfl hc, hlasts⟩

/-- **The hold runs from the end of the fade-out**: let a closing cover be bound to a fade-out, and
let no frame come upon that gone.  Then every frame of its monitor until the hold after the end of
the fade-out is over, for a client that does not see the surface, has the cover. -/
theorem cover_held_after_fade (x : BoundCover) (s : World) (es : List ShimEvent)
    (fr : CaptureFrame) (hbound : ∃ c ∈ s.shim.closing, x.Follows c)
    (hknows : Admits World.step x.Knows s (es ++ [.frame fr]))
    (hcareful : Admits World.step x.Careful s (es ++ [.frame fr]))
    (hm : fr.mon.id = x.mon) (hsees : fr.client.sees x.rules = false)
    (hnow : (run World.step s es).now < x.ends + x.hold) :
    ∃ c ∈ ((run World.step s es).step (.frame fr)).1.shim.closing,
      x.Is c ∧ c.Drawn fr ((run World.step s es).step (.frame fr)).2 := by
  -- the cover is bound and unheld, which is how it lasts
  have hstart : x.Inv s := by
    obtain ⟨c, hc, his, hhold, hfade⟩ := hbound
    refine .inr ⟨c, hc, his, ?_⟩
    rw [hhold]
    exact .inl hfade
  obtain ⟨hrun, ⟨hk, hcare⟩, -⟩ := (admits_append _ _ _).1 (hknows.and hcareful)
  have hinv : x.Inv (run World.step s es) :=
    Admits.invariant (I := x.Inv) (fun s e h he => h.step he.1 he.2) hstart hrun
  obtain ⟨c, hc, hlasts, hdrawn⟩ :=
    lasts_frame hm hk hcare hnow (hinv.resolve_left (not_le.2 hnow))
  exact ⟨c, hc, hlasts.1, hdrawn hsees⟩

end Run

/-! ### A fade-out that is gone before a frame finds it done -/

/-- The fade-out of a window that closed at 0 s is over at 0.4 s. -/
def exampleBound : BoundCover :=
  { owner := 1, mon := 0, rules := exampleRules, bindUntil := 150000000, fade := 7
    ends := 400000000, hold := 1000000000 }

def exampleAfterFade (fadeouts : List Fadeout) : CaptureFrame :=
  { exampleFading with
    desktop := { exampleFading.desktop with fadeouts }
    mon_mem := exampleMonitor_mem }

/-- A frame with the window, its close, and a frame with its fade-out. -/
def exampleFollowing : World :=
  run World.step World.init
    [.frame (exampleFrame "/bin/portal" true),
      .windowClose (exampleDesktop true) exampleSharing exampleWindow, .frame exampleFading]

theorem exampleBound_follows : ∃ c ∈ exampleFollowing.shim.closing, exampleBound.Follows c := by
  unfold BoundCover.Follows BoundCover.Is
  decide +kernel

/-- What is assumed of a frame after the fade-out has ended. -/
theorem exampleBound_knows {s : World} {fadeouts : List Fadeout} (hnow : exampleBound.ends ≤ s.now)
    (hdone : ∀ f ∈ fadeouts, f.done = true) :
    exampleBound.Knows s (.frame (exampleAfterFade fadeouts)) := by
  have hhold : exampleBound.hold ≤ holdFor exampleConfig exampleRules := by decide +kernel
  refine fun _ => ⟨hhold, fun ⟨f, hf, hrunning⟩ => ?_, fun hlt => ?_⟩
  · have hmem : f ∈ fadeouts := List.mem_of_find?_eq_some hf
    rw [hdone f hmem] at hrunning
    exact absurd hrunning (by simp)
  · exact absurd hlt (not_lt.2 hnow)

/-- Hyprland destroys the fade-out before the next frame, at 0.5 s.  The frame at 1.2 s, 0.8 s after
the end of the fade-out and with a hold of one second, has no cover. -/
theorem gone_fade_out_cuts_hold :
    let es : List ShimEvent :=
      [.wait 500000000, .frame (exampleAfterFade []), .wait 700000000]
    let s := run World.step exampleFollowing es
    (∃ c ∈ exampleFollowing.shim.closing, exampleBound.Follows c)
      ∧ Admits World.step exampleBound.Knows exampleFollowing
        (es ++ [.frame (exampleAfterFade [])])
      ∧ (exampleAfterFade []).client.sees exampleRules = false
      ∧ s.now < exampleBound.ends + exampleBound.hold
      ∧ ¬ ∃ c ∈ (s.step (.frame (exampleAfterFade []))).1.shim.closing,
        exampleBound.Is c ∧ c.Drawn (exampleAfterFade []) (s.step (.frame (exampleAfterFade []))).2 := by
  intro es s
  refine ⟨exampleBound_follows, ⟨trivial, ?_, trivial, ?_, trivial⟩, by decide +kernel,
    by decide +kernel, ?_⟩
  · exact exampleBound_knows (by decide +kernel) (List.forall_mem_nil _)
  · exact exampleBound_knows (by decide +kernel) (List.forall_mem_nil _)
  -- the frame draws nothing, although the box of the cover is not empty
  · have hops : (s.step (.frame (exampleAfterFade []))).2 = [] := by decide +kernel
    have hbox : ∀ c ∈ (s.step (.frame (exampleAfterFade []))).1.shim.closing,
        ¬ (captureBox exampleMonitor 0 (atLeast5 c.box)).w < 1
          ∧ ¬ (captureBox exampleMonitor 0 (atLeast5 c.box)).h < 1 := by decide +kernel
    rw [hops]
    rintro ⟨c, hc, -, ⟨op, hop, -⟩ | ⟨hop, -⟩ | hsmall⟩
    · exact absurd hop List.not_mem_nil
    · exact absurd hop List.not_mem_nil
    · exact hsmall.elim (hbox c hc).1 (hbox c hc).2

/-- A frame that finds the fade-out done starts the hold, and the frame at 1.2 s has the cover. -/
theorem done_fade_out_starts_hold :
    let es : List ShimEvent :=
      [.wait 500000000, .frame (exampleAfterFade [{ exampleFade with done := true }]),
        .wait 700000000]
    let s := run World.step exampleFollowing es
    ∃ c ∈ (s.step (.frame (exampleAfterFade []))).1.shim.closing,
      exampleBound.Is c ∧ c.Drawn (exampleAfterFade []) (s.step (.frame (exampleAfterFade []))).2 := by
  intro es s
  refine cover_held_after_fade exampleBound exampleFollowing es (exampleAfterFade [])
    exampleBound_follows ⟨trivial, ?_, trivial, ?_, trivial⟩ ⟨trivial, ?_, trivial, ?_, trivial⟩
    rfl (by decide +kernel) (by decide +kernel)
  -- the first frame sees the fade-out done, the second no fade-out at all
  · refine exampleBound_knows (by decide +kernel) fun f hf => ?_
    rw [List.mem_singleton.1 hf]
  · exact exampleBound_knows (by decide +kernel) (List.forall_mem_nil _)
  · have hthere : (exampleAfterFade [{ exampleFade with done := true }]).desktop.fadeout? 7
        ≠ none := by decide +kernel
    exact fun _ hgone _ => absurd hgone hthere
  · -- the hold has started, so nothing follows the fade-out any more
    have hheld : ∀ c ∈ (run World.step exampleFollowing es).shim.closing,
        c.holdUntil ≠ none := by decide +kernel
    exact fun _ _ ⟨c, hc, hfollows⟩ => absurd hfollows.2.1 (hheld c hc)

end NoshareCover
