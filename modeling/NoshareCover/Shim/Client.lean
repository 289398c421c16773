import NoshareCover.Shim.Config

/-!
# Capture clients

Who takes a capture frame, and whether the lists `show_to` and `hide_from` let it see a surface.
-/

namespace NoshareCover

/-- What `/proc` tells about a client's process. -/
inductive ProcInfo where
  /-- The process is not known. -/
  | unknown
  /-- Where the `exe` link points. -/
  | exe (link : Text)
  /-- The first line of `comm`, when the link can't be read. -/
  | comm (line : Text)
  deriving DecidableEq, Repr

/-- Who a capture client is: its executable, or only the name from `comm`. -/
structure ClientId where
  path : Text
  name : Text
  fromComm : Bool
  deriving DecidableEq, Repr

/-- Everything after the last slash. -/
def fileName (path : Text) : Text := path.rtakeWhile fun c => c ≠ '/'

def deletedSuffix : Text := " (deleted)".toList

def captureClient : ProcInfo → ClientId
  | .unknown => { path := [], name := [], fromComm := false }
  | .comm line =>
    { path := [], name := line.rdropWhile fun c => c = '\n' || c = '\r', fromComm := true }
  | .exe link =>
    -- the binary may have been updated while running
    let path := if deletedSuffix <:+ link then link.take (link.length - 10) else link
    { path, name := fileName path, fromComm := false }

/-- The client behind one capture frame, with the global lists at that time. -/
structure CaptureClient where
  globalShow : Text
  globalHide : Text
  proc : ProcInfo
  /-- A full-path entry with `~` expanded and symlinks resolved. -/
  resolvedPath : Text → Text

def isSeparator (c : Char) : Bool := c = ',' || c = ' ' || c = '\t'

/-- `"grim, /usr/bin/obs  wf-recorder"` has three entries. -/
def listEntries (list : Text) : List Text := (list.splitOnP isSeparator).filter (· ≠ [])

def hasEntries (list : Text) : Bool := list.any fun c => !isSeparator c

namespace CaptureClient

variable (c : CaptureClient)

def id : ClientId := captureClient c.proc

/-- Whether an entry names the client.  A name from `comm` is cut to 15 characters, and so is the
entry's file name; an entry with a slash is a full path. -/
def entryMatches (entry : Text) : Bool :=
  if c.id.fromComm then
    let file := fileName entry
    file = c.id.name || (c.id.name.length = 15 && file.length > 15 && c.id.name.isPrefixOf file)
  else if '/' ∈ entry then c.resolvedPath entry = c.id.path
  else entry = c.id.name

def listHas (list : Text) : Bool :=
  if c.id.name = [] then false else (listEntries list).any c.entryMatches

/-- The client lists that apply to a surface: its rules' own ones, if it has any. -/
def lists (rules : RuleValues) : Text × Text :=
  if rules.showTo.isSome || rules.hideFrom.isSome then
    (rules.showTo.getD [], rules.hideFrom.getD [])
  else (c.globalShow, c.globalHide)

/-- Whether the client sees a hidden surface with these rules as it is.  A name from `comm` is set
by the process itself, so it never passes `show_to`. -/
def sees (rules : RuleValues) : Bool :=
  let (show_, hide) := c.lists rules
  if !hasEntries show_ && !hasEntries hide then false
  else if hasEntries hide then c.id.name ≠ [] && !c.listHas hide
  else if c.id.fromComm then false
  else c.listHas show_

/-- A client that can't be identified is let through by no list. -/
theorem not_sees_of_unknown (h : c.id.name = []) (rules : RuleValues) : c.sees rules = false := by
  simp [sees, listHas, h]

end CaptureClient

end NoshareCover
