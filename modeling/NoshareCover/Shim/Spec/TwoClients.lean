import NoshareCover.Shim.Spec.Hold

/-!
# Two clients on one monitor

A client that sees a surface takes frames in between those of a client that doesn't.  While the
surface is hidden the first client's frames keep what is remembered of it; during the hold after
that they forget it.  `allowed_frames_cost_no_cover` compares a run with the run from which the
first client's frames were left out.
-/

namespace NoshareCover

open Machine

/-- The clients of a run: the surface `k` has rules in `ρ`, which let the program `a` see it and
not the program `b`; both capture the monitor `m`. -/
structure TwoClients (k : Key) (m : MonitorId) (a b : ProcInfo) (ρ : Set RuleValues)
    (closeHold : ℤ) (fr : CaptureFrame) : Prop where
  client : fr.proc = a ∨ fr.proc = b
  sees : fr.proc = a → ∀ r ∈ ρ, fr.client.sees r = true
  not_sees : fr.proc = b → ∀ r ∈ ρ, fr.client.sees r = false
  rules : ∀ g, fr.sight? k = some g → g.rules ∈ ρ
  mon : fr.mon.id = m
  closeHold : fr.cfg.closeHold = closeHold

/-- Not a frame of the program `a`. -/
def notBy (a : ProcInfo) : ShimEvent → Bool
  | .frame fr => fr.proc ≠ a
  | _ => true

/-- No frame of the program `a` comes while the surface is not hidden and its hold is running. -/
def Spares (k : Key) (a : ProcInfo) (s : World) : ShimEvent → Prop
  | .frame fr => fr.proc = a → (∃ g, fr.sight? k = some g ∧ g.hidden = true)
      ∨ ∀ last ∈ s.entry k, last.at_ + holdFor fr.cfg last.rules ≤ s.now
  | _ => True

/-- The hold depends on the rules and on `close_hold` alone. -/
theorem holdFor_congr {cfg cfg' : ShimConfig} (h : cfg.closeHold = cfg'.closeHold)
    (r : RuleValues) : holdFor cfg r = holdFor cfg' r := by
  simp [holdFor, h]

section Run

variable {k : Key} {m : MonitorId} {a b : ProcInfo} {ρ : Set RuleValues} {cfg : ShimConfig}

/-- An entry of the surface `k` on the monitor `m`. -/
def EntryIn (m : MonitorId) (ρ : Set RuleValues) (entry : Option LastCover) : Prop :=
  ∀ last ∈ entry, last.mon = m ∧ last.rules ∈ ρ

/-- The run with all frames and the run without `a`'s remember the same of the surface, or the
first has forgotten an entry whose hold is over. -/
structure SameCover (k : Key) (m : MonitorId) (ρ : Set RuleValues) (cfg : ShimConfig)
    (s t : World) : Prop where
  now : s.now = t.now
  entry : EntryIn m ρ (t.entry k)
  same : s.entry k = t.entry k
    ∨ s.entry k = none ∧ ∀ last ∈ t.entry k, last.at_ + holdFor cfg last.rules ≤ t.now

/-- A frame leaves an entry of its own monitor, with the surface's rules or the old ones. -/
theorem entryIn_entryStep {fr : CaptureFrame} (hrules : ∀ g, fr.sight? k = some g → g.rules ∈ ρ)
    (hmon : fr.mon.id = m) {now : Instant} {entry : Option LastCover} (h : EntryIn m ρ entry) :
    EntryIn m ρ (entryStep fr now k entry).1 := by
  intro last hlast
  unfold entryStep at hlast
  -- the entry stays, or is written from what this frame sees
  cases hsight : fr.sight? k with
  | none =>
    rw [hsight] at hlast
    exact h last (Option.mem_filter_iff.1 hlast).1
  | some g =>
    rw [hsight] at hlast
    have := (Option.mem_filter_iff.1 hlast).1
    split_ifs at this with hcov
    · obtain ⟨f, hf, rfl⟩ := Option.map_eq_some_iff.1 this
      obtain ⟨h1, h2, -⟩ := CaptureFrame.onScreen_spec hsight hf g.rules now
      exact ⟨h1.trans hmon, by rw [h2]; exact hrules g hsight⟩
    · exact h last this

/-- A frame of the client that sees the surface keeps what is remembered of it while it is hidden,
and forgets it otherwise. -/
theorem entryStep_allowed {closeHold : ℤ} {fr : CaptureFrame}
    (hfr : TwoClients k m a b ρ closeHold fr) (ha : fr.proc = a) (now : Instant)
    {entry : Option LastCover} (h : EntryIn m ρ entry) :
    ((∃ g, fr.sight? k = some g ∧ g.hidden = true) → (entryStep fr now k entry).1 = entry)
      ∧ ((¬ ∃ g, fr.sight? k = some g ∧ g.hidden = true) → (entryStep fr now k entry).1 = none) := by
  -- the monitor of the entry is there, so only being seen matters
  have hkeep : ∀ seen, entry.filter (keepEntry fr seen) = if seen then entry else none := by
    intro seen
    cases entry with
    | none => simp
    | some last =>
      have hmon : last.mon = fr.mon.id := (h last rfl).1.trans hfr.mon.symm
      cases seen <;> simp [Option.filter, keepEntry, hmon, fr.mon_mem]
  constructor
  -- hidden and allowed: the frame leaves the entry as it is
  · rintro ⟨g, hsight, hhidden⟩
    have hsees := hfr.sees ha g.rules (hfr.rules g hsight)
    have hheld : g.held fr now entry = false := by simp [Sight.held, hhidden]
    rw [entryStep, hsight]
    simp [Sight.covered, Sight.shut, Sight.revealed, hhidden, hsees, hheld, hkeep]
  -- not hidden: nothing holds it either, so the entry is dropped
  · intro hnot
    cases hsight : fr.sight? k with
    | none =>
      rw [entryStep, hsight]
      simp [hkeep]
    | some g =>
      have hhidden : g.hidden = false := by
        rw [← Bool.not_eq_true]
        exact fun hg => hnot ⟨g, hsight, hg⟩
      -- the rules of the entry let the client see it
      have hheld : g.held fr now entry = false := by
        cases entry with
        | none => simp [Sight.held]
        | some last => simp [Sight.held, LastCover.holds, hfr.sees ha _ (h last rfl).2]
      rw [entryStep, hsight]
      simp [Sight.covered, Sight.shut, Sight.revealed, hhidden, hheld, hkeep]

/-- An entry whose hold is over changes nothing: the frame covers the same, and remembers the
same or leaves the old entry. -/
theorem entryStep_expired {fr : CaptureFrame} {now : Instant} {entry : Option LastCover}
    (h : ∀ last ∈ entry, last.at_ + holdFor fr.cfg last.rules ≤ now) :
    (entryStep fr now k none).2 = (entryStep fr now k entry).2
      ∧ ((entryStep fr now k none).1 = (entryStep fr now k entry).1
        ∨ (entryStep fr now k none).1 = none
          ∧ ∀ last ∈ (entryStep fr now k entry).1, last ∈ entry) := by
  cases hsight : fr.sight? k with
  | none =>
    simp only [entryStep, hsight, Option.filter_none, true_and]
    exact .inr fun last hlast => (Option.mem_filter_iff.1 hlast).1
  | some g =>
    -- an old entry holds nothing, like no entry
    have hheld : g.held fr now entry = false := by
      cases entry with
      | none => simp [Sight.held]
      | some last => simp [Sight.held, LastCover.holds, h last rfl]
    have hheld' : g.held fr now none = false := by simp [Sight.held]
    have hshut : g.covered fr now none = g.covered fr now entry := by
      simp [Sight.covered, Sight.shut, hheld, hheld']
    -- so the two frames differ in what they keep and in nothing they draw
    simp only [entryStep, hsight, hheld, hheld', hshut, Bool.not_false, Bool.and_true, true_and]
    cases g.covered fr now entry with
    | true => exact .inl rfl
    | false => exact .inr ⟨rfl, fun last hlast => (Option.mem_filter_iff.1 hlast).1⟩

/-! ### One event -/

/-- Both runs read an event that is not a frame of `a`. -/
theorem sameCover_keep {s t : World} {e : ShimEvent}
    (he : ∀ fr, e = .frame fr → TwoClients k m a b ρ cfg.closeHold fr)
    (h : SameCover k m ρ cfg s t) : SameCover k m ρ cfg (s.step e).1 (t.step e).1 := by
  have hnow : (s.step e).1.now = (t.step e).1.now := by
    rw [World.now_step, World.now_step, h.now]
  have hgrow := World.now_le_step t e
  -- only frames read or write the entry by what is on screen
  by_cases hframe : ∃ fr, e = .frame fr
  · obtain ⟨fr, rfl⟩ := hframe
    have hfr := he fr rfl
    refine ⟨hnow, ?_, ?_⟩
    · rw [World.entry_frame]
      exact entryIn_entryStep hfr.rules hfr.mon h.entry
    · rw [World.entry_frame, World.entry_frame, h.now]
      rcases h.same with hsame | ⟨hnone, hover⟩
      · exact .inl (by rw [hsame])
      -- the entry of the second run is too old for any of the clients
      · have hover' : ∀ last ∈ t.entry k, last.at_ + holdFor fr.cfg last.rules ≤ t.now := by
          intro last hlast
          rw [holdFor_congr hfr.closeHold]
          exact hover last hlast
        rw [hnone]
        rcases (entryStep_expired hover').2 with heq | ⟨hnone', hsub⟩
        · exact .inl heq
        · exact .inr ⟨hnone', fun last hlast => (hover last (hsub last hlast)).trans hgrow⟩
  · have hs := s.entry_step e k fun fr h => hframe ⟨fr, h⟩
    have ht := t.entry_step e k fun fr h => hframe ⟨fr, h⟩
    -- a close takes the entry away on both sides
    by_cases herase : e.erases k = true
    · rw [if_pos herase] at hs ht
      refine ⟨hnow, ?_, .inl (hs.trans ht.symm)⟩
      intro last hlast
      rw [ht] at hlast
      cases hlast
    · rw [if_neg herase] at hs ht
      refine ⟨hnow, ht ▸ h.entry, ?_⟩
      rw [hs, ht]
      exact h.same.imp id fun ⟨hnone, hover⟩ =>
        ⟨hnone, fun last hlast => (hover last hlast).trans hgrow⟩

/-- Only the first run reads a frame of `a`. -/
theorem sameCover_drop {s t : World} {fr : CaptureFrame}
    (hfr : TwoClients k m a b ρ cfg.closeHold fr) (ha : fr.proc = a)
    (hspares : Spares k a s (.frame fr)) (h : SameCover k m ρ cfg s t) :
    SameCover k m ρ cfg (s.step (.frame fr)).1 t := by
  refine ⟨h.now, h.entry, ?_⟩
  rw [World.entry_frame]
  -- the entries are equal, or the one left over is too old
  rcases h.same with hsame | ⟨hnone, hover⟩
  · have hentry : EntryIn m ρ (s.entry k) := hsame ▸ h.entry
    obtain ⟨hkept, hforgotten⟩ := entryStep_allowed hfr ha s.now hentry
    -- hidden from the others: the entry stays, otherwise it is dropped and old
    by_cases hhidden : ∃ g, fr.sight? k = some g ∧ g.hidden = true
    · exact .inl ((hkept hhidden).trans hsame)
    · refine .inr ⟨hforgotten hhidden, fun last hlast => ?_⟩
      have := (hspares ha).resolve_left hhidden last (hsame ▸ hlast)
      rwa [holdFor_congr hfr.closeHold, h.now] at this
  · refine .inr ⟨?_, hover⟩
    have hentry : EntryIn m ρ (s.entry k) := by
      rw [hnone]
      exact fun _ h => by cases h
    obtain ⟨hkept, hforgotten⟩ := entryStep_allowed hfr ha s.now hentry
    by_cases hhidden : ∃ g, fr.sight? k = some g ∧ g.hidden = true
    · exact (hkept hhidden).trans hnone
    · exact hforgotten hhidden

end Run

/-! ### The two runs -/

/-- **An allowed client's frames cost no cover**: when no frame of `a` comes while the surface is
not hidden and its hold is running, every frame of `b` that covers the surface in the run without
`a`'s frames covers it in the run with them. -/
theorem allowed_frames_cost_no_cover {k : Key} {m : MonitorId} {a b : ProcInfo}
    {ρ : Set RuleValues} {closeHold : ℤ} (s : World) (es : List ShimEvent)
    (hentry : EntryIn m ρ (s.entry k))
    (hclients : ∀ fr, .frame fr ∈ es → TwoClients k m a b ρ closeHold fr)
    (hspares : Admits World.step (Spares k a) s es) :
    ∀ pre fr post, es = pre ++ .frame fr :: post → fr.proc = b →
      coversSurface ((run World.step s (pre.filter (notBy a))).step (.frame fr)).2 k = true →
      coversSurface ((run World.step s pre).step (.frame fr)).2 k = true := by
  intro pre fr post hpost hb hcovers
  let cfg : ShimConfig := { pathCover := [], closeHold, showTo := [], hideFrom := [] }
  have hclients' : ∀ fr', .frame fr' ∈ pre → TwoClients k m a b ρ closeHold fr' :=
    fun fr' h => hclients fr' (by simp [hpost, h])
  have hadmits : Admits World.step (fun s e => Spares k a s e
      ∧ ∀ fr', e = .frame fr' → TwoClients k m a b ρ closeHold fr') s pre := by
    refine Admits.and ?_ (admits_of_forall fun _ e he fr' hfr' => hclients' fr' (hfr' ▸ he))
    exact ((admits_append s pre (.frame fr :: post)).1 (hpost ▸ hspares)).1
  -- both runs up to the frame remember the same, or the first forgot what is over anyway
  have hsame : SameCover k m ρ cfg (run World.step s pre)
      (run World.step s (pre.filter (notBy a))) := by
    refine simulates_filter (notBy a) ?_ ?_ ⟨rfl, hentry, .inl rfl⟩ hadmits
    · intro s t e _ h hP
      exact sameCover_keep hP.2 h
    · intro s t e hdrop h hP
      cases e with
      | frame fr' =>
        have ha : fr'.proc = a := by simpa [notBy] using hdrop
        exact sameCover_drop (hP.2 fr' rfl) ha hP.1 h
      | _ => cases hdrop
  rw [World.covers_frame, hsame.now]
  rw [World.covers_frame] at hcovers
  rcases hsame.same with heq | ⟨hnone, hover⟩
  · rw [heq]
    exact hcovers
  · have hfr := hclients fr (by simp [hpost])
    have hover' : ∀ last ∈ (run World.step s (pre.filter (notBy a))).entry k,
        last.at_ + holdFor fr.cfg last.rules
          ≤ (run World.step s (pre.filter (notBy a))).now := by
      intro last hlast
      rw [holdFor_congr (show fr.cfg.closeHold = cfg.closeHold from hfr.closeHold)]
      exact hover last hlast
    rw [hnone, (entryStep_expired hover').1]
    exact hcovers

/-- A screenshot between two stream frames, right after the title changed, drops the hold. -/
theorem allowed_frame_drops_hold :
    let es : List ShimEvent :=
      [.frame (exampleFrame "/bin/portal" true), .wait 100000000,
        .frame (exampleFrame "/bin/grim" false), .wait 100000000]
    let fr := exampleFrame "/bin/portal" false
    (exampleFrame "/bin/grim" false).client.sees exampleRules = true
      ∧ fr.client.sees exampleRules = false
      ∧ coversSurface ((run World.step World.init
          (es.filter (notBy (.exe "/bin/grim".toList)))).step (.frame fr)).2 1 = true
      ∧ coversSurface ((run World.step World.init es).step (.frame fr)).2 1 = false := by
  decide +kernel

/-- The frames of the example are those of two clients. -/
theorem exampleFrame_twoClients (hidden : Bool) {exe : String}
    (hexe : exe = "/bin/grim" ∨ exe = "/bin/portal") :
    TwoClients 1 0 (.exe "/bin/grim".toList) (.exe "/bin/portal".toList) {exampleRules} 1000
      (exampleFrame exe hidden) := by
  have hclient : (exampleFrame exe hidden).client
      = { globalShow := "grim".toList, globalHide := [], proc := .exe exe.toList
          resolvedPath := fun p => p } := rfl
  have hproc : ProcInfo.exe "/bin/grim".toList ≠ .exe "/bin/portal".toList := by decide
  refine ⟨?_, ?_, ?_, ?_, rfl, rfl⟩
  · rcases hexe with rfl | rfl
    · exact .inl rfl
    · exact .inr rfl
  -- each of the two processes in turn
  · rcases hexe with rfl | rfl
    · rintro - r rfl
      rw [hclient]
      decide +kernel
    · exact fun h => absurd h.symm hproc
  · rcases hexe with rfl | rfl
    · exact fun h => absurd h hproc
    · rintro - r rfl
      rw [hclient]
      decide +kernel
  · intro g hg
    obtain rfl : exampleWindow.sight (exampleFrame exe hidden) = g := by
      rw [← Option.some.injEq]
      exact hg
    rfl

/-- While the title still matches, a screenshot takes nothing from the stream. -/
theorem screenshot_before_title_changes :
    coversSurface ((run World.step World.init
      [.frame (exampleFrame "/bin/portal" true), .wait 100000000,
        .frame (exampleFrame "/bin/grim" true), .wait 100000000]).step
      (.frame (exampleFrame "/bin/portal" false))).2 1 = true := by
  -- every frame of the run is of one of the two clients
  have hclients : ∀ fr, ShimEvent.frame fr ∈ [.frame (exampleFrame "/bin/portal" true),
      .wait 100000000, .frame (exampleFrame "/bin/grim" true), .wait 100000000,
      .frame (exampleFrame "/bin/portal" false)] →
      TwoClients 1 0 (.exe "/bin/grim".toList) (.exe "/bin/portal".toList) {exampleRules} 1000
        fr := by
    intro fr hfr
    simp only [List.mem_cons, ShimEvent.frame.injEq, reduceCtorEq, List.not_mem_nil, or_false,
      false_or] at hfr
    rcases hfr with rfl | rfl | rfl
    · exact exampleFrame_twoClients true (.inr rfl)
    · exact exampleFrame_twoClients true (.inl rfl)
    · exact exampleFrame_twoClients false (.inr rfl)
  refine allowed_frames_cost_no_cover World.init _ (fun _ h => by cases h) hclients ?_ _ _ [] rfl
    rfl (by decide +kernel)
  have hproc : ProcInfo.exe "/bin/portal".toList ≠ .exe "/bin/grim".toList := by decide
  exact ⟨fun h => absurd h hproc, trivial, fun _ => .inl ⟨_, rfl, rfl⟩, trivial,
    fun h => absurd h hproc, trivial⟩

end NoshareCover
