import Mathlib.Data.List.DropRight
import NoshareCover.Core.Registry

/-!
# Settings as the Hyprland config has them

The shim pushes the raw values on every frame and on every config reload.  A value that cannot be
used is replaced, and an unknown backend is reported too.
-/

namespace NoshareCover

/-! ### Texts -/

/-- The characters with the Unicode property `White_Space`. -/
def isWhitespace (c : Char) : Bool :=
  let n := c.toNat
  (9 ≤ n && n ≤ 13) || n = 0x20 || n = 0x85 || n = 0xa0 || n = 0x1680
    || (0x2000 ≤ n && n ≤ 0x200a) || n = 0x2028 || n = 0x2029 || n = 0x202f || n = 0x205f
    || n = 0x3000

/-- `str::trim`. -/
def trimmed (s : String) : String :=
  String.ofList ((s.toList.dropWhile isWhitespace).rdropWhile isWhitespace)

/-- Parses a config value; an unknown word gives `none`. -/
def Backend.parse (raw : String) : Option Backend :=
  let word := String.ofList ((trimmed raw).toList.map Char.toLower)
  if word ∈ ["", "auto"] then some .auto
  else if word ∈ ["gpu", "hw", "hardware"] then some .gpu
  else if word ∈ ["cpu", "sw", "software"] then some .cpu
  else none

/-! ### Paths -/

/-- A path in the spelling of its components, by which paths are compared: repeated slashes, one at
the end and a `.` that is not the beginning make no difference. -/
def Path.ofText (path : String) : String :=
  let pieces := path.toList.splitOn '/'
  let names := pieces.tail.filter fun c => c ≠ [] ∧ c ≠ ['.']
  match pieces.head? with
  | some [] => if path = "" then "" else String.ofList ('/' :: List.intercalate ['/'] names)
  | some first => String.ofList (List.intercalate ['/'] (first :: names))
  | none => ""

/-- `PathBuf::join`. -/
def Path.join (base path : String) : String :=
  if path.toList.head? = some '/' then path
  else if base = "" ∨ base.toList.getLast? = some '/' then base ++ path
  else base ++ "/" ++ path

/-- What the config finds on the machine: `$HOME`, if it is not empty, and the files. -/
structure ConfigFiles where
  home : Option String
  present : String → Bool

/-- `~` and `~/…` expand to the home directory. -/
def ConfigFiles.expandHome (files : ConfigFiles) (path : String) : String :=
  if path = "~" then files.home.getD path
  else
    match path.toList, files.home with
    | '~' :: '/' :: rest, some home => Path.join home (String.ofList rest)
    | _, _ => path

/-- The first default file that exists in `~/.config/hypr`; empty when none does. -/
def ConfigFiles.defaultMediaPath (files : ConfigFiles) : String :=
  let dir := Path.join (Path.join (files.home.getD "") ".config") "hypr"
  let names := ["noshare-cover.gif", "noshare-cover.jpg", "noshare-cover.jpeg", "noshare-cover.png",
    "noshare-cover.mp4"]
  ((names.map (Path.join dir)).find? files.present).getD ""

/-! ### Settings -/

/-- Raw values as returned by the Hyprland config. -/
structure RawSettings where
  pathCover : String
  looped : Bool
  speed : F64
  backend : String
  gpuDevice : String
  deriving DecidableEq, Repr

namespace Settings

/-- The settings, and what was wrong with the raw ones. -/
def fromRaw (files : ConfigFiles) (raw : RawSettings) : Settings × Option ConfigError :=
  let backend := Backend.parse raw.backend
  let path :=
    if trimmed raw.pathCover = "" then files.defaultMediaPath
    else files.expandHome (trimmed raw.pathCover)
  let device := trimmed raw.gpuDevice
  ({ pathCover := Path.ofText path
     looped := raw.looped
     speed := sanitizeSpeed raw.speed
     backend := backend.getD .auto
     gpuDevice := if device ∈ ["", "auto"] then none
       else some (Path.ofText (files.expandHome device)) },
    if backend = none then some (.unknownBackend raw.backend) else none)

end Settings

/-- Anything except 0, false, no and off is true. -/
def truthy (raw : String) : Bool :=
  String.ofList ((trimmed raw).toList.map Char.toLower) ∉ ["0", "false", "no", "off"]

/-- What a window rule says, as text. -/
structure PlayRule where
  path : Option String
  speed : Option String
  looped : Option String

/-- Applies overrides from a window rule; empty values are left untouched.  `parse` reads a float. -/
def PlayParams.withRule (files : ConfigFiles) (parse : String → Option F64) (p : PlayParams)
    (rule : PlayRule) : PlayParams :=
  let given (value : Option String) := (value.map trimmed).filter fun value => value ≠ ""
  { path := (given rule.path).elim p.path fun path => Path.ofText (files.expandHome path)
    speed := (given rule.speed).elim p.speed fun speed => sanitizeSpeed ((parse speed).getD (some 1))
    looped := (given rule.looped).elim p.looped truthy }

/-! ### The calls of the shim -/

/-- Raw settings, and what the machine has when they are pushed. -/
structure Push where
  files : ConfigFiles
  raw : RawSettings

/-- What the settings of a push are after sanitising. -/
def Push.settings (p : Push) : Settings := (Settings.fromRaw p.files p.raw).1

/-- A call of the shim, or a step of a loader thread.  The settings only come from
`nsc_set_settings`. -/
inductive Ffi (σ : Type) where
  | setSettings (push : Push) (env : Env) (now : Instant)
  | nextNotification
  | other (e : Sys.Event σ) (h : ∀ env settings error now, e ≠ .setSettings env settings error now)

/-- `nsc_set_settings` as an event of the registry. -/
def Push.event {σ : Type} (p : Push) (env : Env) (now : Instant) : Sys.Event σ :=
  .setSettings env (Settings.fromRaw p.files p.raw).1 (Settings.fromRaw p.files p.raw).2 now

/-- One call; the output is the message that the shim gets. -/
def Ffi.step {σ : Type} [Source σ] (s : Sys σ) : Ffi σ → Sys σ × Option String
  | .setSettings p env now => ((s.step (p.event env now)).1, none)
  | .nextNotification =>
    ({ s with reg := { s.reg with notifier := s.reg.notifier.pop.2 } }, s.reg.notifier.pop.1)
  | .other e _ => ((s.step e).1, none)

end NoshareCover
