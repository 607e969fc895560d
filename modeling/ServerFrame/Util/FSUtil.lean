import ServerFrame.Lib.FileTree

/-!
# The file system under `FSUtil::Rm` and `FSUtil::Mv`

The file system is a tree below some directory, and a path is the list of names that leads from there
to an entry, when the symbolic links on the way, `.` and `..` are resolved. The entry itself is never
followed, neither by `lstat` and `unlink` nor by `rename`. `rename` is called with the strings once
more, which lead nowhere when something on the way has been removed.
-/
namespace ServerFrame.FSUtil

open FileTree

abbrev Name : Type := List UInt8

abbrev Path : Type := List Name

/-! ## What `lstat` says -/

/-- What an entry is that is no directory. -/
inductive Kind where
  | regular
  | symlink
  | fifo
  | socket
  | characterDevice
  | blockDevice
  deriving DecidableEq

/-- Two names with one inode are two names of one file. -/
structure File where
  kind : Kind
  inode : Nat
  deriving DecidableEq

abbrev Entry : Type := Item Name File

def S_IFDIR : UInt32 := 0x4000

/-- The file type in `st_mode`. -/
def stMode : Entry → UInt32
  | .leaf file =>
    match file.kind with
    | .fifo => 0x1000
    | .characterDevice => 0x2000
    | .blockDevice => 0x6000
    | .regular => 0x8000
    | .symlink => 0xA000
    | .socket => 0xC000
  | .dir _ => S_IFDIR

theorem leaf_mode_iff (file : File) : stMode (.leaf file) &&& S_IFDIR = 0 ↔
    file.kind ≠ .socket ∧ file.kind ≠ .blockDevice := by
  cases file with
  | mk kind inode => cases kind <;> simp [stMode, S_IFDIR] <;> decide

theorem dir_mode (entries : List (Name × Entry)) : ¬ stMode (.dir entries) &&& S_IFDIR = 0 := by
  simp [stMode, S_IFDIR]

/-! ## Calls of the system -/

def dot : Name := [46]

def dotDot : Name := [46, 46]

/-- The names that an entry can have: not empty, without `/` and NUL, and neither `.` nor `..`. -/
def Allowed (name : Name) : Prop :=
  name ≠ [] ∧ 47 ∉ name ∧ 0 ∉ name ∧ name ≠ dot ∧ name ≠ dotDot

/-- The names in every directory are distinct and allowed. -/
def Proper (fs : Option Entry) : Prop :=
  ∀ top, fs = some top → top.WellFormed Allowed

structure FileSystem where
  root : Option Entry
  proper : Proper root

/-- The calls that fail for reasons of their own, such as a missing permission, by the path they are
made on. `lstatAgain` is the one in `Unlink`, and `readdir` has the number of names that it lists where
it ends early. -/
structure Faults where
  lstat : Path → Bool
  lstatAgain : Path → Bool
  opendir : Path → Bool
  readdir : Path → Option Nat
  unlink : Path → Bool
  rmdir : Path → Bool
  rename : Bool

namespace Faults

/-- What `readdir` lists. -/
def read {α : Type} (faults : Faults) (path : Path) (listed : List α) : List α :=
  match faults.readdir path with
  | some few => listed.take few
  | none => listed

/-- No call on a path fails for a reason of its own. -/
structure NoneAt (faults : Faults) (path : Path) : Prop where
  lstat : faults.lstat path = false
  lstatAgain : faults.lstatAgain path = false
  opendir : faults.opendir path = false
  readdir : faults.readdir path = none
  unlink : faults.unlink path = false
  rmdir : faults.rmdir path = false

/-- Nor does one in the tree at a path. -/
def NoneIn (faults : Faults) (fs : Option Entry) (path : Path) : Prop :=
  ∀ inner, path <+: inner → (lookup fs inner).isSome → faults.NoneAt inner

end Faults

variable (faults : Faults)

def lstat (fault : Bool) (fs : Option Entry) (path : Path) : Option Entry :=
  if fault then none else lookup fs path

/-- `opendir` with what `readdir` lists then. -/
def opendir (fs : Option Entry) (path : Path) : Option (List Name) :=
  match lookup fs path with
  | some (.dir entries) =>
    if faults.opendir path then none
    else some (dot :: dotDot :: (faults.read path entries).map Prod.fst)
  | _ => none

def unlink (fs : Option Entry) (path : Path) : Option (Option Entry) :=
  match lookup fs path with
  | some (.leaf _) => if faults.unlink path then none else some (put fs path none)
  | _ => none

def rmdir (fs : Option Entry) (path : Path) : Option (Option Entry) :=
  match lookup fs path with
  | some (.dir []) => if faults.rmdir path then none else some (put fs path none)
  | _ => none

/-- `rename`. Two names of one file are both kept. -/
def rename (fs : Option Entry) (frm dest : Path) : Option (Option Entry) :=
  match lookup fs frm with
  | none => none
  | some entry =>
    if faults.rename then none
    else if frm = dest then some fs
    -- an entry does not go below itself, nor over the directory that holds it
    else if frm <+: dest ∨ dest <+: frm then none
    else
      match lookup fs dest, entry with
      | none, _ =>
        match lookup fs dest.dropLast with
        | some (.dir _) => some (put (put fs frm none) dest (some entry))
        | _ => none
      | some (.leaf there), .leaf file =>
        if there.inode = file.inode then some fs
        else some (put (put fs frm none) dest (some entry))
      -- of the directories only an empty one is replaced
      | some (.dir []), .dir _ => some (put (put fs frm none) dest (some entry))
      | some _, _ => none

/-! ## The functions -/

/-- `FSUtil::Unlink`. -/
def Unlink (fs : Option Entry) (filename : Path) (exist : Bool) : Bool × Option Entry :=
  if !exist && (lstat (faults.lstatAgain filename) fs filename).isNone then (true, fs)
  else
    match unlink faults fs filename with
    | some fs => (true, fs)
    | none => (false, fs)

/-- The loop of `Rm` over what `readdir` lists. -/
def rmEntries (rm : Option Entry → Path → Option (Bool × Option Entry)) (path : Path) :
    List Name → Bool × Option Entry → Option (Bool × Option Entry)
  | [], state => some state
  | name :: names, (ret, fs) =>
    if name = dot ∨ name = dotDot then rmEntries rm path names (ret, fs)
    -- the `ret` of the name before is overwritten
    else (rm fs (path ++ [name])).bind (rmEntries rm path names)

/-- `FSUtil::Rm`, to a depth. -/
def rmRun : Nat → Option Entry → Path → Option (Bool × Option Entry)
  | 0, _, _ => none
  | depth + 1, fs, path =>
    match lstat (faults.lstat path) fs path with
    -- whatever the reason is
    | none => some (true, fs)
    | some st =>
      if stMode st &&& S_IFDIR = 0 then some (Unlink faults fs path false)
      else
        match opendir faults fs path with
        | none => some (false, fs)
        -- what a name before has left keeps `rmdir` from succeeding
        | some names => do
          let (ret, fs) ← rmEntries (rmRun depth) path names (true, fs)
          match rmdir faults fs path with
          | none => some (false, fs)
          | some fs => some (ret, fs)

/-- `FSUtil::Rm`. No path below is longer than the tree is high. -/
def Rm (fs : Option Entry) (path : Path) : Option (Bool × Option Entry) :=
  rmRun faults (((lookup fs path).elim 0 Item.height) + 1) fs path

/-- What a string is to the system: the place that it leads to, and the directories and symbolic links
that it goes through, as in `d/../f`. A string that leads nowhere has a place where nothing stands. -/
structure Route (fs : Option Entry) where
  place : Path
  through : List Path
  leads : (lookup fs place).isSome → ∀ path ∈ through, (lookup fs path).isSome

/-- What the string goes through stands, so that it still leads to its place. -/
def Route.stands {fs : Option Entry} (route : Route fs) (fs' : Option Entry) : Bool :=
  route.through.all fun path => (lookup fs' path).isSome

/-- `FSUtil::Mv`. -/
def Mv (fs : Option Entry) (frm dest : Route fs) : Option (Bool × Option Entry) := do
  let (ret, fs') ← Rm faults fs dest.place
  if !ret then some (false, fs')
  else if !(frm.stands fs' && dest.stands fs') then some (false, fs')
  else
    match rename faults fs' frm.place dest.place with
    | some fs => some (true, fs)
    | none => some (false, fs')

end ServerFrame.FSUtil
