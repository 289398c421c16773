import NoshareCover.Core.Video.SampleEntry

/-!
# The walk through the boxes of `stbl`

A box puts the reader behind itself, by the size in its header and whatever is in it.  So the loop
makes progress at every box but those of size 0, and if it comes to one of them that can be read, it
never ends.  The loops in the entries of AVC and of MPEG-4 audio are of the same kind.  Nothing else
keeps the reader (`ReMp4.readStbl_endless_iff`).
-/

namespace NoshareCover

namespace ReMp4

/-! ### Where a reader goes -/

theorem run_bind_ok {ε α β : Type} {x : StateT ℕ (Except ε) α} {f : α → StateT ℕ (Except ε) β}
    {p : ℕ} {r : β × ℕ} :
    (x >>= f).run p = .ok r ↔ ∃ a q, x.run p = .ok (a, q) ∧ (f a).run q = .ok r := by
  rw [StateT.run_bind]
  cases hx : x.run p with
  | error e => exact ⟨nofun, nofun⟩
  | ok s => exact ⟨fun h => ⟨s.1, s.2, rfl, h⟩, fun ⟨_, _, h, hf⟩ => by cases h; exact hf⟩

theorem run_map_ok {ε α β : Type} {x : StateT ℕ (Except ε) α} {f : α → β} {p : ℕ} {r : β × ℕ} :
    (f <$> x).run p = .ok r ↔ ∃ a q, x.run p = .ok (a, q) ∧ (f a, q) = r := by
  rw [StateT.run_map]
  cases hx : x.run p with
  | error e => exact ⟨nofun, nofun⟩
  | ok s =>
    constructor
    · intro h
      exact ⟨s.1, s.2, rfl, Except.ok.inj h⟩
    · rintro ⟨a, q, h, rfl⟩
      cases h
      rfl

variable {file : List UInt8} {p q : ℕ}

theorem readExact_ok {n : ℕ} {w : List UInt8} (h : (readExact n file).run p = .ok (w, q)) :
    q = p + n := by
  change readExact n file p = _ at h
  rw [readExact] at h
  split_ifs at h
  cases h
  rfl

theorem readU32_ok {n : ℕ} (h : (readU32 file).run p = .ok (n, q)) : q = p + 4 := by
  obtain ⟨w, q', hread, heq⟩ := run_map_ok.1 h
  cases heq
  exact readExact_ok hread

theorem readU64_ok {n : ℕ} (h : (readU64 file).run p = .ok (n, q)) : q = p + 8 := by
  obtain ⟨w, q', hread, heq⟩ := run_map_ok.1 h
  cases heq
  exact readExact_ok hread

theorem header_ok {header : BoxHeader} (h : (BoxHeader.read file).run p = .ok (header, q)) :
    p + 8 ≤ q := by
  obtain ⟨size, q₁, hsize, h⟩ := run_bind_ok.1 h
  obtain ⟨typ, q₂, htyp, h⟩ := run_bind_ok.1 h
  have h₁ := readU32_ok hsize
  have h₂ := readU32_ok htyp
  split_ifs at h
  -- a size of 1 stands for the eight bytes behind the type
  · obtain ⟨largesize, q₃, hlargesize, h⟩ := run_bind_ok.1 h
    have h₃ := readU64_ok hlargesize
    split_ifs at h
    · cases h
      omega
    · cases h
    · cases h
      omega
  · cases h
    omega

/-- A box puts the reader behind itself. -/
theorem readBox_ok {α : Type} {size : ℕ} {contents : BoxReader α} {a : α}
    (h : (readBox size contents file).run p = .ok (a, q)) : q = p - 8 + size := by
  obtain ⟨start, q₁, hstart, h⟩ := run_bind_ok.1 h
  obtain ⟨b, q₂, -, h⟩ := run_bind_ok.1 h
  have hbox : (p - 8, p) = (start, q₁) := Except.ok.inj hstart
  have hskip : (b, start + size) = (a, q) := Except.ok.inj h
  cases hbox
  exact (Prod.ext_iff.1 hskip).2.symm

theorem skipBox_ok {size : ℕ} {u : Unit} (h : (skipBox size).run p = .ok (u, q)) :
    q = p - 8 + size := by
  have hskip : ((), p - 8 + size) = (u, q) := Except.ok.inj h
  exact (Prod.ext_iff.1 hskip).2.symm

/-! ### Readers with loops in them -/

theorem loop_ok_iff {α : Type} {r : BoxReader α} {x : α × ℕ} :
    (BoxReader.loop r file).run p = .ok x ↔ (r file).run p = .ok x := by
  show (r file p).mapError some = _ ↔ r file p = _
  cases r file p with
  | error e => exact ⟨nofun, nofun⟩
  | ok y => exact ⟨fun h => congrArg Except.ok (Except.ok.inj h),
      fun h => congrArg Except.ok (Except.ok.inj h)⟩

/-- A reader without loops comes to an end. -/
theorem loop_ne_running {α : Type} (r : BoxReader α) :
    (BoxReader.loop r file).run p ≠ .error none := by
  show (r file p).mapError some ≠ _
  cases r file p with
  | error e => exact nofun
  | ok y => exact nofun

/-- A step without loops in front of others. -/
theorem endless_loop_bind {α β : Type} {r : BoxReader α}
    {f : ℕ → α → StateT ℕ (Except (Option BoxError)) β} :
    (While.Endless fun n => ((BoxReader.loop r file) >>= f n).run p) ↔
      ∃ a q, (r file).run p = .ok (a, q) ∧ While.Endless fun n => (f n a).run q := by
  simp only [StateT.run_bind]
  rw [While.endless_bind (loop_ne_running r)]
  constructor
  · rintro ⟨⟨a, q⟩, hr, h⟩
    exact ⟨a, q, loop_ok_iff.1 hr, h⟩
  · rintro ⟨a, q, hr, h⟩
    exact ⟨(a, q), loop_ok_iff.2 hr, h⟩

/-- Behind a reader with loops, a step that cannot fail. -/
theorem endless_bind_ok {α β : Type} {x : ℕ → StateT ℕ (Except (Option BoxError)) α}
    {f : α → StateT ℕ (Except (Option BoxError)) β} (hf : ∀ a q, ∃ y, (f a).run q = .ok y) :
    (While.Endless fun n => (x n >>= f).run p) ↔ While.Endless fun n => (x n).run p := by
  simp only [StateT.run_bind]
  refine While.endless_bind_last fun b => ?_
  obtain ⟨y, hy⟩ := hf b.1 b.2
  rw [hy]
  exact nofun

theorem map_loop_ne_running {α β : Type} (f : α → β) (r : BoxReader α) :
    (f <$> BoxReader.loop r file).run p ≠ .error none := by
  rw [StateT.run_map]
  have hne : (BoxReader.loop r file).run p ≠ .error none := loop_ne_running r
  rcases hr : (BoxReader.loop r file).run p with e | y
  · rw [hr] at hne
    intro h
    cases Except.error.inj h
    exact hne rfl
  · exact nofun

theorem steady_loop_bind {α β : Type} {r : BoxReader α}
    {f : ℕ → α → StateT ℕ (Except (Option BoxError)) β}
    (hf : ∀ a q, While.Steady fun n => (f n a).run q) :
    While.Steady fun n => ((BoxReader.loop r file) >>= f n).run p := by
  simp only [StateT.run_bind]
  exact (While.steady_const _).bind fun b => hf b.1 b.2

/-! ### The loop in an entry -/

section Until

variable {φ : Type} {done : φ → Bool} {round : BoxReader φ} {found : φ} {n : ℕ}

/-- One round of the loop in an entry, with what it has found. -/
def untilBody (round : BoxReader φ) (file : List UInt8) : While.Nested (φ × ℕ) BoxError :=
  fun _ s => (BoxReader.loop round file).run s.2

def untilCond (done : φ → Bool) (s : φ × ℕ) : Bool := !done s.1

theorem steady_loopUntil :
    While.Steady fun n => (loopUntil done round n found file).run p := by
  have hbody : ∀ s, While.Steady fun n => untilBody round file n s := fun _ => While.steady_const _
  exact While.steady_runAll hbody (found, p)

/-- **The loop in an entry** never ends if and only if it comes to a place that it stays at, when
behind every other place that is before its end it is at a later one. -/
theorem loopUntil_endless_iff {stop : ℕ} {Stuck : ℕ → Prop}
    (hstuck : ∀ p, Stuck p → ∃ a, done a = false ∧ (round file).run p = .ok (a, p))
    (hround : ∀ p a q, (round file).run p = .ok (a, q) → done a = false →
      Stuck p ∨ (p < q ∧ p < stop)) :
    (While.Endless fun n => (loopUntil done round n found file).run p) ↔
      ∃ s, While.Reaches (untilCond done) (untilBody round file) (found, p) s
        ∧ done s.1 = false ∧ Stuck s.2 := by
  have hsteady : ∀ s, While.Steady fun n => untilBody round file n s := fun _ => While.steady_const _
  have hstays : ∀ s : φ × ℕ, done s.1 = false ∧ Stuck s.2 →
      ∃ s', While.Round (untilCond done) (untilBody round file) s s'
        ∧ (done s'.1 = false ∧ Stuck s'.2) := by
    rintro s ⟨hgo, hs⟩
    obtain ⟨a, ha, hrun⟩ := hstuck s.2 hs
    exact ⟨(a, s.2), ⟨by rw [untilCond, hgo]; rfl, 0, loop_ok_iff.2 hrun⟩, ha, hs⟩
  -- what is left of the bytes before the end, and one more
  let left : φ × ℕ → ℕ := fun s => if done s.1 then 0 else stop - s.2 + 1
  have hleft : ∀ s s', While.Round (untilCond done) (untilBody round file) s s' →
      (done s.1 = false ∧ Stuck s.2) ∨ left s' < left s := by
    rintro s s' ⟨hcond, fuel, hbody⟩
    have hgo : done s.1 = false := by simpa [untilCond] using hcond
    dsimp only [left]
    rw [hgo, if_neg Bool.false_ne_true]
    cases hdone : done s'.1 with
    | true =>
      rw [if_pos rfl]
      exact .inr (Nat.succ_pos _)
    | false =>
      rw [if_neg Bool.false_ne_true]
      refine (hround s.2 s'.1 s'.2 (loop_ok_iff.1 hbody) hdone).imp (fun h => ⟨rfl, h⟩) ?_
      rintro ⟨hlt, hstop⟩
      omega
  refine (While.endless_iff hsteady left hstays hleft).trans
    (exists_congr fun s => and_congr_right fun _ => ⟨?_, .inl⟩)
  rintro (h | ⟨-, h⟩)
  · exact h
  · exact absurd (h 0) (loop_ne_running round)

end Until

/-- A header, in whatever form, of a box of size 0 and none of these types. -/
def ZeroHeader (file : List UInt8) (types : List ℕ) (p : ℕ) : Prop :=
  ∃ header q, (BoxHeader.read file).run p = .ok (header, q) ∧ header.size = 0
    ∧ header.name.toU32 ∉ types

/-- The place where the loop in an entry stays. -/
def StuckAt (file : List UInt8) (types : List ℕ) (stop p : ℕ) : Prop :=
  p < stop ∧ ZeroHeader file types p

section Entry

variable {readers : EntryReaders} {size stop : ℕ}

theorem avc1Round_stuck (h : StuckAt file [avcCBox] stop p) :
    (Avc1Box.round size stop file).run p = .ok (none, p) := by
  obtain ⟨hlt, header, q, hheader, hzero, htype⟩ := h
  rw [List.mem_singleton] at htype
  refine run_bind_ok.2 ⟨p, p, rfl, ?_⟩
  rw [if_neg (not_le.2 hlt)]
  refine run_bind_ok.2 ⟨header, q, hheader, ?_⟩
  rw [hzero, if_neg (Nat.not_lt_zero size), if_neg htype]
  rfl

theorem avc1Round_progress {a : Option (List UInt8)}
    (h : (Avc1Box.round size stop file).run p = .ok (a, q)) (hgo : a.isSome = false) :
    StuckAt file [avcCBox] stop p ∨ (p < q ∧ p < stop) := by
  obtain ⟨p', q', hpos, h⟩ := run_bind_ok.1 h
  have hget : (p, p) = (p', q') := Except.ok.inj hpos
  cases hget
  split_ifs at h with hstop
  · cases h
  obtain ⟨header, q₁, hheader, h⟩ := run_bind_ok.1 h
  -- a child larger than the box is an error, and `avcC` ends the search
  split_ifs at h with hlarge htype
  · cases h
  · obtain ⟨avcc, q₂, -, h⟩ := run_bind_ok.1 h
    cases h
    cases hgo
  -- any other child is skipped, and one of size 0 is read again
  · have hskip : (none, p + header.size) = (a, q) := Except.ok.inj h
    have hq : p + header.size = q := (Prod.ext_iff.1 hskip).2
    by_cases hzero : header.size = 0
    · exact .inl ⟨not_le.1 hstop, header, q₁, hheader, hzero, by rwa [List.mem_singleton]⟩
    · right
      omega

theorem mp4aRound_stuck (h : StuckAt file [esdsBox, waveBox] stop p) :
    (Mp4aBox.round readers size stop file).run p = .ok ({ esds := none, done := false }, p) := by
  obtain ⟨hlt, header, q, hheader, hzero, htype⟩ := h
  rw [List.mem_cons, List.mem_singleton, not_or] at htype
  refine run_bind_ok.2 ⟨p, p, rfl, ?_⟩
  rw [if_neg (not_le.2 hlt)]
  refine run_bind_ok.2 ⟨header, q, hheader, ?_⟩
  rw [hzero, if_neg (Nat.not_lt_zero size), if_neg htype.1, if_neg htype.2]
  rfl

theorem mp4aRound_progress {a : EsdsSearch}
    (h : (Mp4aBox.round readers size stop file).run p = .ok (a, q)) (hgo : a.done = false) :
    StuckAt file [esdsBox, waveBox] stop p ∨ (p < q ∧ p < stop) := by
  obtain ⟨p', q', hpos, h⟩ := run_bind_ok.1 h
  have hget : (p, p) = (p', q') := Except.ok.inj hpos
  cases hget
  -- at the end of the box the search is over
  split_ifs at h with hstop
  · cases h
    cases hgo
  obtain ⟨header, q₁, hheader, h⟩ := run_bind_ok.1 h
  have hbehind := header_ok hheader
  split_ifs at h with hlarge hesds hwave
  · cases h
  · obtain ⟨esds, q₂, -, h⟩ := run_bind_ok.1 h
    cases h
    cases hgo
  · -- the boxes in `wave` are those of the entry, too
    cases h
    right
    omega
  -- only the skip can stand still
  · have hskip : (({ esds := none, done := false } : EsdsSearch), p + header.size) = (a, q) :=
      Except.ok.inj h
    have hq : p + header.size = q := (Prod.ext_iff.1 hskip).2
    by_cases hzero : header.size = 0
    · exact .inl ⟨not_le.1 hstop, header, q₁, hheader, hzero, by
        rw [List.mem_cons, List.mem_singleton, not_or]
        exact ⟨hesds, hwave⟩⟩
    · right
      omega

/-- The loop of an entry of AVC, at a position behind its header, comes to a box of size 0. -/
def Avc1Box.Stays (file : List UInt8) (size p : ℕ) : Prop :=
  ∃ q s, (Avc1Box.readFields file).run p = .ok ((), q)
    ∧ While.Reaches (untilCond Option.isSome) (untilBody (Avc1Box.round size (p - 8 + size)) file)
      (none, q) s
    ∧ s.1.isSome = false ∧ StuckAt file [avcCBox] (p - 8 + size) s.2

def Mp4aBox.Stays (readers : EntryReaders) (file : List UInt8) (size p : ℕ) : Prop :=
  ∃ fields q s, (Mp4aFields.read file).run p = .ok (fields, q)
    ∧ While.Reaches (untilCond EsdsSearch.done)
      (untilBody (Mp4aBox.round readers size (p - 8 + size)) file)
      ({ esds := none, done := false }, q) s
    ∧ s.1.done = false ∧ StuckAt file [esdsBox, waveBox] (p - 8 + size) s.2

/-- An entry, with the reader of its fields and what its loop looks for. -/
def entryReader {α φ : Type} (fields : BoxReader α) (done : φ → Bool) (round : ℕ → BoxReader φ)
    (found : φ) (finish : α → φ → Stsd) (size fuel : ℕ) : LoopReader Stsd := fun file => do
  let start ← BoxReader.loop (fun _ => boxStart) file
  let a ← BoxReader.loop fields file
  let b ← loopUntil done (round (start + size)) fuel found file
  BoxReader.loop (fun _ => skipBytesTo (start + size)) file
  return finish a b

theorem avc1_eq_entryReader (fuel : ℕ) : Avc1Box.read fuel size
    = entryReader Avc1Box.readFields Option.isSome (Avc1Box.round size) none
      (fun _ avcc => (.avc1, avcc)) size fuel := rfl

theorem mp4a_eq_entryReader (fuel : ℕ) : Mp4aBox.read readers fuel size
    = entryReader Mp4aFields.read EsdsSearch.done (Mp4aBox.round readers size)
      { esds := none, done := false } (fun fields found => (.other (fields.text found.esds), none))
      size fuel := rfl

variable {α φ : Type} {fields : BoxReader α} {done : φ → Bool} {round : ℕ → BoxReader φ} {found : φ}
  {finish : α → φ → Stsd}

theorem steady_entryReader : While.Steady fun n =>
    (entryReader fields done round found finish size n file).run p := by
  refine steady_loop_bind fun start q => ?_
  refine steady_loop_bind fun a q => ?_
  simp only [StateT.run_bind]
  exact steady_loopUntil.bind fun b => While.steady_const _

/-- An entry never ends if its loop does not. -/
theorem entryReader_endless_iff :
    (While.Endless fun n => (entryReader fields done round found finish size n file).run p) ↔
      ∃ a q, (fields file).run p = .ok (a, q)
        ∧ While.Endless fun n => (loopUntil done (round (p - 8 + size)) n found file).run q := by
  unfold entryReader
  rw [endless_loop_bind]
  -- the start of the box is the place behind the header, less the header
  have hstart : ∀ start q, boxStart.run p = .ok (start, q) ↔ start = p - 8 ∧ q = p := by
    intro start q
    show Except.ok (p - 8, p) = _ ↔ _
    rw [Except.ok.injEq, Prod.mk.injEq]
    exact and_congr eq_comm eq_comm
  simp only [hstart]
  constructor
  -- the reader stays where its loop over the children stays
  · rintro ⟨start, q, ⟨rfl, rfl⟩, h⟩
    obtain ⟨a, q', hfields, h⟩ := endless_loop_bind.1 h
    exact ⟨a, q', hfields, (endless_bind_ok fun _ _ => ⟨_, rfl⟩).1 h⟩
  · rintro ⟨a, q, hfields, h⟩
    exact ⟨_, _, ⟨rfl, rfl⟩,
      endless_loop_bind.2 ⟨a, q, hfields, (endless_bind_ok fun _ _ => ⟨_, rfl⟩).2 h⟩⟩

theorem avc1_endless_iff :
    (While.Endless fun n => (Avc1Box.read n size file).run p) ↔ Avc1Box.Stays file size p := by
  simp only [avc1_eq_entryReader, entryReader_endless_iff, Avc1Box.Stays]
  refine (exists_congr fun _ => exists_congr fun q => and_congr_right fun _ =>
    loopUntil_endless_iff (fun _ h => ⟨none, rfl, avc1Round_stuck h⟩)
      fun _ _ _ => avc1Round_progress).trans ⟨?_, ?_⟩
  · rintro ⟨⟨⟩, q, hfields, s, h⟩
    exact ⟨q, s, hfields, h⟩
  · rintro ⟨q, s, hfields, h⟩
    exact ⟨(), q, hfields, s, h⟩

theorem mp4a_endless_iff : (While.Endless fun n => (Mp4aBox.read readers n size file).run p) ↔
    Mp4aBox.Stays readers file size p := by
  simp only [mp4a_eq_entryReader, entryReader_endless_iff, Mp4aBox.Stays]
  refine exists_congr fun fields => exists_congr fun q => Iff.trans (and_congr_right fun _ =>
    loopUntil_endless_iff (fun _ h => ⟨{ esds := none, done := false }, rfl, mp4aRound_stuck h⟩)
      fun _ _ _ => mp4aRound_progress) ?_
  rw [exists_and_left]

end Entry

/-! ### The sample description -/

section Stsd

variable {readers : EntryReaders} {header : BoxHeader} {size : ℕ}

/-- The types of entries with loops. -/
def avc1Type : ℕ := 0x61766331

def mp4aType : ℕ := 0x6d703461

/-- The loop of an entry, at a position behind its header, comes to a box of size 0. -/
def EntryStays (readers : EntryReaders) (file : List UInt8) (header : BoxHeader) (p : ℕ) : Prop :=
  header.name.toU32 = avc1Type ∧ Avc1Box.Stays file header.size p
    ∨ header.name.toU32 = mp4aType ∧ Mp4aBox.Stays readers file header.size p

/-- The entry in a box at this position stays. -/
def StsdStays (readers : EntryReaders) (file : List UInt8) (size p : ℕ) : Prop :=
  ∃ ext count header q₁ q₂ q, (readExact 4 file).run p = .ok (ext, q₁)
    ∧ (readU32 file).run q₁ = .ok (count, q₂) ∧ (BoxHeader.read file).run q₂ = .ok (header, q)
    ∧ header.size ≤ size ∧ EntryStays readers file header q

theorem steady_entry : While.Steady fun n => (readSampleEntry readers n header file).run p := by
  unfold readSampleEntry
  split
  · simp only [avc1_eq_entryReader]
    exact steady_entryReader
  · exact While.steady_const _
  · exact While.steady_const _
  · simp only [mp4a_eq_entryReader]
    exact steady_entryReader
  · exact While.steady_const _

theorem not_entryStays (havc1 : header.name.toU32 ≠ avc1Type) (hmp4a : header.name.toU32 ≠ mp4aType) :
    ¬ EntryStays readers file header p := by
  rintro (⟨h, -⟩ | ⟨h, -⟩)
  · exact havc1 h
  · exact hmp4a h

/-- **An entry** never ends if and only if its loop stays; those of other types end. -/
theorem entry_endless_iff : (While.Endless fun n => (readSampleEntry readers n header file).run p) ↔
    EntryStays readers file header p := by
  unfold readSampleEntry
  split
  -- one case for each kind of entry: only `avc1` and `mp4a` have loops
  · rename_i htype
    rw [avc1_endless_iff]
    exact ⟨fun h => .inl ⟨htype, h⟩, fun h => h.elim And.right fun h => by
      cases htype.symm.trans h.1⟩
  -- the other video entries read a fixed number of fields
  · rename_i htype
    refine iff_of_false (fun h => map_loop_ne_running _ _ (h 0)) (not_entryStays ?_ ?_)
    · rw [htype]
      decide
    · rw [htype]
      decide
  · rename_i htype
    refine iff_of_false (fun h => map_loop_ne_running _ _ (h 0)) (not_entryStays ?_ ?_)
    · rw [htype]
      decide
    · rw [htype]
      decide
  · rename_i htype
    rw [mp4a_endless_iff]
    exact ⟨fun h => .inr ⟨htype, h⟩, fun h => h.elim (fun h => by cases htype.symm.trans h.1)
      And.right⟩
  · rename_i havc1 _ _ hmp4a
    exact iff_of_false (fun h => loop_ne_running _ (h 0)) (not_entryStays havc1 hmp4a)

theorem steady_stsdContents :
    While.Steady fun n => (StsdBox.readContents readers n size file).run p := by
  refine steady_loop_bind fun ext q => steady_loop_bind fun count q => ?_
  refine steady_loop_bind fun header q => ?_
  split_ifs
  · exact While.steady_const _
  · exact steady_entry

theorem steady_stsd : While.Steady fun n => (StsdBox.read readers n size file).run p := by
  refine steady_loop_bind fun start q => ?_
  simp only [StateT.run_bind]
  exact steady_stsdContents.bind fun b => While.steady_const _

/-- **The sample description** never ends if and only if its entry stays. -/
theorem stsd_endless_iff : (While.Endless fun n => (StsdBox.read readers n size file).run p) ↔
    StsdStays readers file size p := by
  -- the seek to the end of the box cannot stay
  have hcontents : (While.Endless fun n => (StsdBox.read readers n size file).run p) ↔
      While.Endless fun n => (StsdBox.readContents readers n size file).run p := by
    refine endless_loop_bind.trans ⟨?_, fun h => ⟨_, _, rfl, ?_⟩⟩
    · rintro ⟨start, q, hstart, h⟩
      have hpos : (p - 8, p) = (start, q) := Except.ok.inj hstart
      cases hpos
      exact (endless_bind_ok fun _ _ => ⟨_, rfl⟩).1 h
    · exact (endless_bind_ok fun _ _ => ⟨_, rfl⟩).2 h
  refine hcontents.trans (endless_loop_bind.trans ?_)
  constructor
  · rintro ⟨ext, q₁, hext, h⟩
    obtain ⟨count, q₂, hcount, h⟩ := endless_loop_bind.1 h
    obtain ⟨header, q, hheader, h⟩ := endless_loop_bind.1 h
    -- a header larger than the box is an error
    split_ifs at h with hlarge
    · cases h 0
    · exact ⟨ext, count, header, q₁, q₂, q, hext, hcount, hheader, not_lt.1 hlarge,
        entry_endless_iff.1 h⟩
  · rintro ⟨ext, count, header, q₁, q₂, q, hext, hcount, hheader, hsize, h⟩
    refine ⟨ext, q₁, hext, endless_loop_bind.2 ⟨count, q₂, hcount, ?_⟩⟩
    refine endless_loop_bind.2 ⟨header, q, hheader, ?_⟩
    split_ifs with hlarge
    · exact absurd hlarge (not_lt.2 hsize)
    · exact entry_endless_iff.2 h

/-- A sample description puts the reader behind itself, too. -/
theorem stsd_ok {n : ℕ} {b : Stsd} (h : (StsdBox.read readers n size file).run p = .ok (b, q)) :
    q = p - 8 + size := by
  obtain ⟨start, q₁, hstart, h⟩ := run_bind_ok.1 h
  obtain ⟨c, q₂, -, h⟩ := run_bind_ok.1 h
  have hpos : (p - 8, p) = (start, q₁) := Except.ok.inj hstart
  have hskip : (c, start + size) = (b, q) := Except.ok.inj h
  cases hpos
  exact (Prod.ext_iff.1 hskip).2.symm

end Stsd

/-! ### One round -/

section Round

variable {readers : EntryReaders} {fields fields' : StblFields} {header : BoxHeader} {size n : ℕ}

theorem table_ok (h : (fields.readTable header file).run p = .ok (fields', q)) :
    q = p - 8 + header.size ∧ ∀ g : StblFields, ∃ g',
      (g.readTable header file).run p = .ok (g', q) := by
  unfold StblFields.readTable at h ⊢
  cases hname : header.name <;> rw [hname] at h <;> obtain ⟨a, q', hread, heq⟩ := run_map_ok.1 h
  case other =>
    cases heq
    exact ⟨skipBox_ok hread, fun g => ⟨_, run_map_ok.2 ⟨a, q, hread, rfl⟩⟩⟩
  case stsd =>
    cases heq
    exact ⟨skipBox_ok hread, fun g => ⟨_, run_map_ok.2 ⟨a, q, hread, rfl⟩⟩⟩
  all_goals
    cases heq
    exact ⟨readBox_ok hread, fun g => ⟨_, run_map_ok.2 ⟨a, q, hread, rfl⟩⟩⟩

/-- Where a box ends and whether it can be read does not depend on the boxes before. -/
theorem readChild_ok (h : (fields.readChild (StsdBox.read readers n) header file).run p
      = .ok (fields', q)) :
    q = p - 8 + header.size ∧ ∀ g : StblFields, ∃ g',
      (g.readChild (StsdBox.read readers n) header file).run p = .ok (g', q) := by
  unfold StblFields.readChild at h ⊢
  split at h
  · obtain ⟨a, q', hread, heq⟩ := run_map_ok.1 h
    cases heq
    exact ⟨stsd_ok hread, fun g => ⟨_, run_map_ok.2 ⟨a, q, hread, rfl⟩⟩⟩
  · obtain ⟨hq, hany⟩ := table_ok (loop_ok_iff.1 h)
    exact ⟨hq, fun g => (hany g).imp fun _ hg => loop_ok_iff.2 hg⟩

theorem round_ok :
    (fields.round (StsdBox.read readers n) size file).run p = .ok (fields', q) ↔
      ∃ header q', (BoxHeader.read file).run p = .ok (header, q') ∧ header.size ≤ size ∧
        (fields.readChild (StsdBox.read readers n) header file).run q' = .ok (fields', q) := by
  constructor
  · intro h
    obtain ⟨header, q', hheader, h⟩ := run_bind_ok.1 h
    split_ifs at h with hlarge
    · cases h
    · exact ⟨header, q', loop_ok_iff.1 hheader, not_lt.1 hlarge, h⟩
  · rintro ⟨header, q', hheader, hsize, hchild⟩
    refine run_bind_ok.2 ⟨header, q', loop_ok_iff.2 hheader, ?_⟩
    rw [if_neg (not_lt.2 hsize)]
    exact hchild

theorem steady_round :
    While.Steady fun n => (fields.round (StsdBox.read readers n) size file).run p := by
  refine steady_loop_bind fun header q => ?_
  split_ifs
  · exact While.steady_const _
  · show While.Steady fun n => (fields.readChild (StsdBox.read readers n) header file).run q
    unfold StblFields.readChild
    split
    · simp only [StateT.run_map]
      exact steady_stsd.map _
    · exact While.steady_const _

/-- A child box is a sample description that stays. -/
def ChildStays (readers : EntryReaders) (file : List UInt8) (size p : ℕ) : Prop :=
  ∃ length q, (BoxHeader.read file).run p = .ok ({ name := .stsd, size := length }, q)
    ∧ length ≤ size ∧ StsdStays readers file length q

theorem round_endless_iff :
    (While.Endless fun n => (fields.round (StsdBox.read readers n) size file).run p) ↔
      ChildStays readers file size p := by
  refine endless_loop_bind.trans ?_
  constructor
  · rintro ⟨⟨name, length⟩, q, hheader, h⟩
    split_ifs at h with hlarge
    · cases h 0
    · change While.Endless fun n =>
        (fields.readChild (StsdBox.read readers n) ⟨name, length⟩ file).run q at h
      unfold StblFields.readChild at h
      -- of the children only `stsd` can stay
      split at h
      · rename_i hname
        cases hname
        simp only [StateT.run_map] at h
        exact ⟨length, q, hheader, not_lt.1 hlarge, stsd_endless_iff.1 (While.endless_map.1 h)⟩
      · exact absurd (h 0) (loop_ne_running _)
  · rintro ⟨length, q, hheader, hsize, h⟩
    refine ⟨_, q, hheader, ?_⟩
    split_ifs with hlarge
    · exact absurd hlarge (not_lt.2 hsize)
    · show While.Endless fun n =>
        (fields.readChild (StsdBox.read readers n) ⟨.stsd, length⟩ file).run q
      simp only [StblFields.readChild, StateT.run_map]
      exact While.endless_map.2 (stsd_endless_iff.2 h)

end Round

/-! ### The loop -/

section Walk

variable (readers : EntryReaders) (file : List UInt8)

/-- A box of size 0 that can be read. -/
def ZeroBox (p : ℕ) : Prop :=
  ∃ name, (BoxHeader.read file).run p = .ok ({ name, size := 0 }, p + 8) ∧
    ∃ fuel fields, (StblFields.empty.readChild (StsdBox.read readers fuel) { name, size := 0 }
      file).run (p + 8) = .ok (fields, p)

variable {readers file} {size start : ℕ}

/-- At a box of size 0 the reader stays where it is. -/
theorem round_zeroBox {s : StblFields × ℕ} (hend : s.2 < start + size)
    (h : ZeroBox readers file s.2) :
    ∃ fields, While.Round (stblCond size start) (stblBody (StsdBox.read readers) file size) s
      (fields, s.2) := by
  obtain ⟨name, hheader, fuel, fields, hchild⟩ := h
  obtain ⟨fields', hchild'⟩ := (readChild_ok hchild).2 s.1
  exact ⟨fields', decide_eq_true hend, fuel,
    round_ok.2 ⟨_, _, hheader, Nat.zero_le _, hchild'⟩⟩

/-- **One round** makes progress, or is at a box of size 0. -/
theorem progress_of_round {s s' : StblFields × ℕ}
    (h : While.Round (stblCond size start) (stblBody (StsdBox.read readers) file size) s s') :
    s.2 < start + size ∧ (ZeroBox readers file s.2 ∨ s.2 < s'.2) := by
  obtain ⟨hcond, fuel, hbody⟩ := h
  obtain ⟨⟨name, length⟩, q, hheader, -, hchild⟩ := round_ok.1 hbody
  refine ⟨of_decide_eq_true hcond, ?_⟩
  have hq := header_ok hheader
  obtain ⟨hnext, hany⟩ := readChild_ok hchild
  -- a child that leaves the reader in place has size 0 and a short header
  by_cases hstay : s'.2 = s.2
  · have hlength : length = 0 := by dsimp only at hnext; omega
    have hshort : q = s.2 + 8 := by dsimp only at hnext; omega
    subst hlength hshort
    obtain ⟨fields, hfields⟩ := hany .empty
    rw [hstay] at hfields
    exact .inl ⟨name, hheader, fuel, fields, hfields⟩
  · right
    dsimp only at hnext
    omega

/-- **The box of the tables hangs the reader** if and only if its loop comes to a box of size 0 that
can be read, or to a sample description with an entry whose own loop comes to a box of size 0. -/
theorem readStbl_endless_iff {pos : ℕ} :
    (∀ fuel, readStbl (StsdBox.read readers) file size fuel pos = none) ↔
      ∃ s, While.Reaches (stblCond size (pos - 8)) (stblBody (StsdBox.read readers) file size)
          (.empty, pos) s
        ∧ s.2 < pos - 8 + size
        ∧ (ZeroBox readers file s.2 ∨ ChildStays readers file size s.2) := by
  have hsteady : ∀ s, While.Steady fun n => stblBody (StsdBox.read readers) file size n s :=
    fun _ => steady_round
  -- a read that never ends is a loop that never ends
  have hloop : (∀ fuel, readStbl (StsdBox.read readers) file size fuel pos = none) ↔
      While.Endless fun n => While.runAll (stblCond size (pos - 8))
        (stblBody (StsdBox.read readers) file size) n (.empty, pos) := by
    refine forall_congr' fun fuel => ?_
    unfold readStbl
    dsimp only
    split
    · exact ⟨fun _ => ‹_›, fun _ => rfl⟩
    · rename_i hres
      exact iff_of_false nofun (by rw [hres]; exact nofun)
    · rename_i hres
      exact iff_of_false nofun (by rw [hres]; exact nofun)
  rw [hloop]
  -- once at a box of size 0, every round leads back to it
  let stuck : StblFields × ℕ → Prop := fun s => s.2 < pos - 8 + size ∧ ZeroBox readers file s.2
  have hstuck : ∀ s, stuck s → ∃ s', While.Round (stblCond size (pos - 8))
      (stblBody (StsdBox.read readers) file size) s s' ∧ stuck s' := by
    rintro s ⟨hend, hzero⟩
    obtain ⟨fields, hround⟩ := round_zeroBox hend hzero
    exact ⟨(fields, s.2), hround, hend, hzero⟩
  refine (While.endless_iff hsteady (fun s => pos - 8 + size - s.2) hstuck ?_).trans
    (exists_congr fun s => and_congr_right fun _ => ⟨?_, ?_⟩)
  -- every other round comes nearer to the end
  · intro s s' hround
    obtain ⟨hend, hzero | hlt⟩ := progress_of_round hround
    · exact .inl ⟨hend, hzero⟩
    · right
      omega
  -- a body that stays is a child that stays
  · rintro (⟨hend, hzero⟩ | ⟨hcond, hbody⟩)
    · exact ⟨hend, .inl hzero⟩
    · exact ⟨of_decide_eq_true hcond, .inr (round_endless_iff.1 hbody)⟩
  · rintro ⟨hend, hzero | hchild⟩
    · exact .inl ⟨hend, hzero⟩
    · exact .inr ⟨decide_eq_true hend, round_endless_iff.2 hchild⟩

/-- A box of no size and a type that `stbl` does not know. -/
theorem zeroBox_unknown {p t : ℕ} (h : (BoxHeader.read file).run p
      = .ok ({ name := .other t, size := 0 }, p + 8)) : ZeroBox readers file p :=
  ⟨.other t, h, 0, .empty, by rfl⟩

example : ZeroBox readers (List.replicate 16 0) 8 := zeroBox_unknown (t := 0) (by decide +kernel)

example : Avc1Box.Stays (List.replicate 94 0) 87 8 :=
  ⟨86, (none, 86), by decide +kernel, .refl, rfl, by decide,
    { name := .other 0, size := 0 }, 94, by decide +kernel, rfl, by decide⟩

end Walk

end ReMp4

end NoshareCover
