import LoxWebsocket.Framework.Lines
import LoxWebsocket.Framework.Files

/-!
# Paths

A path is a list of components; one that ends in a separator is that of a
directory, and so is one without a last name. `withExtension` gives another path
except where the extension is there already (`withExtension_eq_iff`).
-/

namespace Lox

inductive Component
  | rootDir
  | curDir
  | parentDir
  | normal (name : Bytes)
  deriving DecidableEq

structure Path where
  components : List Component
  /-- Whether it ends in a separator. -/
  trailing : Bool
  deriving DecidableEq

namespace Path

def dot : UInt8 := 0x2E

/-- The absolute path with these names. -/
def absolute (names : List Str) : Path := ⟨.rootDir :: names.map fun name => .normal (utf8 name), false⟩

def fileName (p : Path) : Option Bytes :=
  match p.components.getLast? with
  | some (.normal name) => some name
  | _ => none

/-- A file name before and after its last dot; a dot in front is not one. -/
def rsplitFileAtDot (name : Bytes) : Option Bytes × Option Bytes :=
  match rsplitOnce dot name with
  | none => (none, some name)
  | some (before, after) => if before = [] then (some name, none) else (some before, some after)

def stemOf (name : Bytes) : Bytes := ((rsplitFileAtDot name).1.or (rsplitFileAtDot name).2).getD name

def extensionOf (name : Bytes) : Option Bytes := (rsplitFileAtDot name).1.bind fun _ => (rsplitFileAtDot name).2

def fileStem (p : Path) : Option Bytes := p.fileName.map stemOf

def extension (p : Path) : Option Bytes := p.fileName.bind extensionOf

def withExtension (p : Path) (extension : Bytes) : Path :=
  match p.fileStem with
  | none => p
  | some stem =>
    ⟨p.components.dropLast ++ [.normal (if extension = [] then stem else stem ++ dot :: extension)], false⟩

def parent (p : Path) : Option Path :=
  match p.components.getLast? with
  | none => none
  | some .rootDir => none
  | some _ => some ⟨p.components.dropLast, false⟩

instance : FilePaths Path where
  names p := p.fileName.isSome && !p.trailing

theorem names_iff {p : Path} : FilePaths.names p = true ↔ (∃ name, p.fileName = some name) ∧ p.trailing = false := by
  simp [FilePaths.names, Option.isSome_iff_exists]

theorem components_of_fileName {p : Path} {name : Bytes} (h : p.fileName = some name) :
    p.components = p.components.dropLast ++ [.normal name] := by
  have hlast : p.components.getLast? = some (.normal name) := by
    unfold fileName at h
    split at h
    · rename_i heq
      cases h
      exact heq
    · cases h
  exact (List.dropLast_append_getLast? _ hlast).symm

/-- The stem with an extension is the name itself if it has that extension. -/
theorem stem_append_eq_iff (name : Bytes) {extension : Bytes} :
    stemOf name ++ dot :: extension = name ↔ extensionOf name = some extension := by
  unfold stemOf extensionOf rsplitFileAtDot
  split
  · simp
  · rename_i before after heq
    have hname := eq_append_of_rsplitOnce heq
    split_ifs with hb
    · simp
    · simp only [Option.or_some, Option.getD_some, Option.bind_some, Option.some.injEq]
      rw [hname]
      simpa using eq_comm

variable {p : Path} {ext : Bytes}

theorem withExtension_of_fileName {name : Bytes} (h : p.fileName = some name) (hne : ext ≠ []) :
    p.withExtension ext = ⟨p.components.dropLast ++ [.normal (stemOf name ++ dot :: ext)], false⟩ := by
  rw [withExtension, fileStem, h]
  simp only [Option.map_some, if_neg hne]

/-- Of a path that can name a file, so can the one with another extension. -/
theorem names_withExtension (h : FilePaths.names p = true) (hne : ext ≠ []) :
    FilePaths.names (p.withExtension ext) = true := by
  obtain ⟨⟨name, hname⟩, -⟩ := names_iff.mp h
  rw [withExtension_of_fileName hname hne, names_iff]
  exact ⟨⟨stemOf name ++ dot :: ext, by simp [fileName]⟩, rfl⟩

/-- Only an extension that is there already gives the same path. -/
theorem withExtension_eq_iff (h : FilePaths.names p = true) (hne : ext ≠ []) :
    p.withExtension ext = p ↔ p.extension = some ext := by
  obtain ⟨⟨name, hname⟩, htrailing⟩ := names_iff.mp h
  have hcomponents := components_of_fileName hname
  rw [extension, hname, Option.bind_some, ← stem_append_eq_iff, withExtension_of_fileName hname hne]
  constructor
  · intro heq
    have hlast := congrArg Path.components heq
    rw [hcomponents] at hlast
    simpa using hlast
  · intro heq
    rw [heq, ← hcomponents, ← htrailing]

end Path

end Lox
