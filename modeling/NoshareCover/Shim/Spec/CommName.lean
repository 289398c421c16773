import NoshareCover.Shim.Client

/-!
# Known only by the process name

Where `/proc/<pid>/exe` can't be read, a client is known by the 15 bytes that `comm` has of its
file name.  It never passes `show_to`, and for `hide_from` it is compared with the file names of
the list's entries.  An entry that is a link names the executable that it leads to, though, and that
one's file name can be another (`comm_hides_iff`).
-/

namespace NoshareCover

/-! ### Entries and file names -/

theorem fileName_of_no_slash {entry : Text} (h : '/' ∉ entry) : fileName entry = entry := by
  apply List.rtakeWhile_eq_self_iff.2
  intro ch hch
  have hne : ch ≠ '/' := fun heq => h (heq ▸ hch)
  exact decide_eq_true hne

/-- A list of nothing but separators has no entries. -/
theorem listEntries_eq_nil {list : Text} (h : hasEntries list = false) : listEntries list = [] := by
  unfold listEntries
  induction list with
  | nil => simp [List.splitOnP_nil]
  | cons ch list ih =>
    unfold hasEntries at h ih
    rw [List.any_cons, Bool.or_eq_false_iff, Bool.not_eq_false'] at h
    rw [List.splitOnP_cons_eq_if_modifyHead, if_pos h.1, List.filter_cons_of_neg (by simp)]
    exact ih h.2

/-- A file name agrees with a name from `comm` when both begin with the same 15 bytes. -/
theorem comm_agrees_iff (file name : Text) :
    (file = name.take 15
        ∨ ((name.take 15).length = 15 ∧ 15 < file.length) ∧ name.take 15 <+: file)
      ↔ file.take 15 = name.take 15 := by
  constructor
  -- an equal name, or a name cut off at 15 characters
  · rintro (heq | ⟨⟨hfull, -⟩, hprefix⟩)
    · rw [heq, List.take_take, Nat.min_self]
    · have htake := List.prefix_iff_eq_take.1 hprefix
      rw [hfull] at htake
      exact htake.symm
  · intro htake
    -- the lengths of both heads are equal, so a short one is the whole name
    have hlength : (file.take 15).length = (name.take 15).length := congrArg List.length htake
    rw [List.length_take, List.length_take] at hlength
    rw [← htake, List.length_take]
    by_cases hlong : 15 < file.length
    · exact .inr ⟨⟨by omega, hlong⟩, List.take_prefix ..⟩
    · exact .inl (List.take_of_length_le (by omega)).symm

/-! ### One process, known in two ways -/

/-- The process runs the executable `path`.  Its link tells so, and its `comm` has the first 15
bytes of the file name. -/
structure SameProcess (path : Text) (exe comm : ProcInfo) : Prop where
  exe : captureClient exe = { path, name := fileName path, fromComm := false }
  comm : captureClient comm = { path := [], name := (fileName path).take 15, fromComm := true }

/-- Every executable is told by some link: its path, and the mark of an update if the path itself
ends like one. -/
theorem exists_link (path : Text) :
    ∃ link, captureClient (.exe link) = { path, name := fileName path, fromComm := false } := by
  -- a path that ends like the mark has to have it twice
  by_cases hmark : deletedSuffix <:+ path
  · refine ⟨path ++ deletedSuffix, ?_⟩
    have hstrip : (path ++ deletedSuffix).take ((path ++ deletedSuffix).length - 10) = path := by
      have hlength : (path ++ deletedSuffix).length - 10 = path.length := by
        rw [List.length_append]
        show path.length + 10 - 10 = _
        omega
      rw [hlength, List.take_left]
    unfold captureClient
    dsimp only
    rw [if_pos (List.suffix_append ..), hstrip]
  · refine ⟨path, ?_⟩
    unfold captureClient
    dsimp only
    rw [if_neg hmark]

/-- Every executable whose file name has no line break can be known in both ways. -/
theorem exists_sameProcess {path : Text}
    (hline : ∀ ch ∈ fileName path, ¬ (ch = '\n' ∨ ch = '\r')) :
    ∃ exe comm, SameProcess path exe comm := by
  obtain ⟨link, hlink⟩ := exists_link path
  refine ⟨.exe link, .comm ((fileName path).take 15), hlink, ?_⟩
  have htrim : ((fileName path).take 15).rdropWhile (fun ch => ch = '\n' || ch = '\r')
      = (fileName path).take 15 := by
    rw [List.rdropWhile_eq_self_iff]
    intro hne hlast
    have hmem := List.mem_of_mem_take (List.getLast_mem hne)
    exact hline _ hmem (by simpa using hlast)
  unfold captureClient
  dsimp only
  rw [htrim]

namespace CaptureClient

variable {c : CaptureClient} {list : Text}

/-- Which entries name a client that is known by its executable. -/
theorem listHas_exe_iff {path : Text}
    (hid : c.id = { path, name := fileName path, fromComm := false }) (hname : fileName path ≠ []) :
    c.listHas list = true ↔ ∃ entry ∈ listEntries list,
      if '/' ∈ entry then c.resolvedPath entry = path else entry = fileName path := by
  unfold listHas
  rw [hid, if_neg hname, List.any_eq_true]
  refine exists_congr fun entry => and_congr_right fun _ => ?_
  unfold entryMatches
  rw [hid]
  split_ifs <;> simp_all

/-- Which entries name a client that is known by the 15 bytes of `name`. -/
theorem listHas_comm_iff {name : Text}
    (hid : c.id = { path := [], name := name.take 15, fromComm := true }) (hname : name ≠ []) :
    c.listHas list = true
      ↔ ∃ entry ∈ listEntries list, (fileName entry).take 15 = name.take 15 := by
  have htake : name.take 15 ≠ [] := by simpa using hname
  unfold listHas
  rw [hid, if_neg htake, List.any_eq_true]
  refine exists_congr fun entry => and_congr_right fun _ => ?_
  unfold entryMatches
  rw [hid, ← comm_agrees_iff]
  simp

/-- With a list of those to hide from, an identified client sees what it isn't listed for. -/
theorem sees_of_hide {rules : RuleValues} (hhide : hasEntries (c.lists rules).2 = true)
    (hname : c.id.name ≠ []) : c.sees rules = !c.listHas (c.lists rules).2 := by
  unfold sees
  dsimp only
  rw [hhide, decide_eq_true hname]
  simp

/-- Without one, a client known by its name alone sees nothing. -/
theorem not_sees_comm {rules : RuleValues} (hhide : hasEntries (c.lists rules).2 = false)
    (hcomm : c.id.fromComm = true) : c.sees rules = false := by
  unfold sees
  dsimp only
  rw [hhide, hcomm]
  simp

end CaptureClient

/-- **The process name reveals no more than the executable** exactly when the file has no name, or
every entry of the list that applies which leads to the executable by its path goes with one whose
file name has the same first 15 bytes as the executable's. -/
theorem comm_hides_iff (c : CaptureClient) {path : Text} {exe comm : ProcInfo}
    (h : SameProcess path exe comm) (rules : RuleValues) :
    (({ c with proc := exe } : CaptureClient).sees rules = false →
        ({ c with proc := comm } : CaptureClient).sees rules = false)
      ↔ fileName path = [] ∨ ∀ entry ∈ listEntries (c.lists rules).2, '/' ∈ entry →
        c.resolvedPath entry = path → ∃ other ∈ listEntries (c.lists rules).2,
          (fileName other).take 15 = (fileName path).take 15 := by
  -- both processes are of one program, the names differ in what is known of it
  have hexe : ({ c with proc := exe } : CaptureClient).id
      = { path, name := fileName path, fromComm := false } := h.exe
  have hcomm : ({ c with proc := comm } : CaptureClient).id
      = { path := [], name := (fileName path).take 15, fromComm := true } := h.comm
  set byExe : CaptureClient := { c with proc := exe }
  set byComm : CaptureClient := { c with proc := comm }
  have hlists : byExe.lists rules = c.lists rules ∧ byComm.lists rules = c.lists rules := ⟨rfl, rfl⟩
  -- without a file name the client is unknown, which hides
  by_cases hname : fileName path = []
  · have hnil : byComm.id.name = [] := by rw [hcomm, hname]; rfl
    exact iff_of_true (fun _ => byComm.not_sees_of_unknown hnil rules) (.inl hname)
  cases hhide : hasEntries (c.lists rules).2 with
  | false =>
    -- without an entry to hide from, a name from comm sees nothing
    have hsees := CaptureClient.not_sees_comm (hlists.2 ▸ hhide) (congrArg ClientId.fromComm hcomm)
    rw [listEntries_eq_nil hhide]
    exact iff_of_true (fun _ => hsees) (.inr fun entry hentry => absurd hentry List.not_mem_nil)
  | true =>
    have hexeName : byExe.id.name ≠ [] := by rw [hexe]; exact hname
    have hcommName : byComm.id.name ≠ [] := by rw [hcomm]; simpa using hname
    rw [CaptureClient.sees_of_hide (hlists.1 ▸ hhide) hexeName,
      CaptureClient.sees_of_hide (hlists.2 ▸ hhide) hcommName, hlists.1, hlists.2,
      Bool.not_eq_false', Bool.not_eq_false', CaptureClient.listHas_exe_iff hexe hname,
      CaptureClient.listHas_comm_iff hcomm hname]
    -- an entry that names the program has a counterpart for the cut name
    constructor
    · intro himp
      refine .inr fun entry hentry hslash hpath => himp ⟨entry, hentry, ?_⟩
      rw [if_pos hslash]
      exact hpath
    · rintro hcond ⟨entry, hentry, hmatch⟩
      split_ifs at hmatch with hslash
      · exact hcond.resolve_left hname entry hentry hslash hmatch
      · -- a plain name is its own file name
        exact ⟨entry, hentry, by rw [fileName_of_no_slash hslash, hmatch]⟩

/-! ### A link with another name -/

/-- Rules without client lists of their own. -/
def listlessRules : RuleValues :=
  { path := none, speed := none, loop := none, hold := none, showTo := none, hideFrom := none }

/-- Hidden from the one executable that the entry leads to. -/
def exampleHideFrom (entry : String) : CaptureClient :=
  { globalShow := [], globalHide := entry.toList, proc := .unknown
    resolvedPath := fun path =>
      if path = entry.toList then "/opt/recorder/wf-recorder".toList else path }

theorem sameProcess_recorder : SameProcess "/opt/recorder/wf-recorder".toList
    (.exe "/opt/recorder/wf-recorder".toList) (.comm "wf-recorder\n".toList) :=
  ⟨by decide, by decide⟩

/-- The listed path is a link to the recorder.  The recorder sees nothing as long as its link can be
read, and everything when only its process name is known. -/
theorem linked_recorder_sees_by_comm :
    ∃ path exe comm, SameProcess path exe comm
      ∧ ({ exampleHideFrom "/usr/bin/rec" with proc := exe } : CaptureClient).sees listlessRules
        = false
      ∧ ({ exampleHideFrom "/usr/bin/rec" with proc := comm } : CaptureClient).sees listlessRules
        = true :=
  ⟨_, _, _, sameProcess_recorder, by decide, by decide⟩

/-- A link with the recorder's own name hides from it in both ways. -/
theorem named_recorder_hidden_by_comm :
    ({ exampleHideFrom "/usr/bin/wf-recorder" with
      proc := .comm "wf-recorder\n".toList } : CaptureClient).sees listlessRules = false :=
  (comm_hides_iff (exampleHideFrom "/usr/bin/wf-recorder") sameProcess_recorder listlessRules).2
    (.inr (by decide)) (by decide)

end NoshareCover
