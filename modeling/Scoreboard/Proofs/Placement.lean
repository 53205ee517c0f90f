import Mathlib
import Scoreboard.Files
import Scoreboard.Proofs.Lines
import Scoreboard.Proofs.Steps

/-!
# Where paths lead

Writing goes to the full name that a path leads to (`Place.target?`). Two facts about such
names carry everything else: a path ends with the name that its target ends with, so paths
with different last names never lead to the same file; and folders stay folders and files
stay files while a tree is written to, so a path keeps leading where it led.

`FileTree.Delivers` says what any number of successful writes have done: each path that was
written leads to a file with the contents that belong to its name, and every other file is as
it was. It is closed under doing one after the other.
-/

namespace Scoreboard

/-! ## The last name of a path -/

namespace Path

end Path

namespace FileTree

end FileTree

/-! ## Names that are written -/

/-- The name that writing goes to. -/
def Place.target? : Place → Option (List Text)
  | found name (.file _) => some name
  | found _ .folder => none
  | vacant name => some name
  | failed _ => none

namespace FileTree

variable {tree : FileTree} {folder name : List Text} {parts : List (List CodePoint)}

theorem get?_putEntry {entry : Entry} {other : List Text} (entries : List (List Text × Entry)) :
    ((putEntry name entry entries).find? (·.1 == other)).map (·.2)
      = if other = name then some entry else (entries.find? (·.1 == other)).map (·.2) := by
  induction entries with
  | nil =>
    by_cases h : other = name
    · simp [putEntry, h]
    · simp [putEntry, h, Ne.symm h]
  | cons old rest ih =>
    rw [putEntry]
    by_cases hold : old.1 = name
    · by_cases h : other = name
      · simp [hold, h]
      · simp [hold, h, Ne.symm h]
    · by_cases h : old.1 = other
      · simp [h, h ▸ hold]
      · simpa [hold, h] using ih

/-- Looking at a tree with an entry put in, which is not the root. -/
theorem get?_put (hname : name ≠ []) (entry : Entry) (other : List Text) :
    (tree.put name entry).get? other = if other = name then some entry else tree.get? other := by
  unfold get? put
  by_cases hroot : other = []
  · rw [if_pos hroot, if_pos hroot, if_neg (hroot ▸ Ne.symm hname)]
  · rw [if_neg hroot, if_neg hroot, get?_putEntry]

/-- A part of a path that names something in a folder. -/
structure IsPart (part : List CodePoint) : Prop where
  ne_stay : ¬(part = [] ∨ part = [Path.dot])
  ne_up : part ≠ [Path.dot, Path.dot]

/-- Parts that lead from a folder through folders to the name of something that is no
folder. -/
inductive Walks (tree : FileTree) : List Text → List (List CodePoint) → List Text → Prop
  | stay {folder name : List Text} {part : List CodePoint} {rest : List (List CodePoint)}
      (hpart : part = [] ∨ part = [Path.dot]) (hrest : Walks tree folder rest name) :
      Walks tree folder (part :: rest) name
  | up {folder name : List Text} {rest : List (List CodePoint)}
      (hrest : Walks tree folder.dropLast rest name) :
      Walks tree folder ([Path.dot, Path.dot] :: rest) name
  | into {folder name : List Text} {part : List CodePoint} {rest : List (List CodePoint)}
      (hpart : IsPart part) (hshort : ¬nameLimit < (Text.mk part).byteLength)
      (hfolder : tree.get? (folder ++ [(Text.mk part).diskName]) = some .folder)
      (hrest : Walks tree (folder ++ [(Text.mk part).diskName]) rest name) :
      Walks tree folder (part :: rest) name
  | last {folder : List Text} {part : List CodePoint} (hpart : IsPart part)
      (hshort : ¬nameLimit < (Text.mk part).byteLength)
      (hname : tree.get? (folder ++ [(Text.mk part).diskName]) ≠ some .folder) :
      Walks tree folder [part] (folder ++ [(Text.mk part).diskName])

theorem walks_of_target (h : (tree.follow folder parts).target? = some name) :
    Walks tree folder parts name := by
  fun_induction FileTree.follow tree folder parts with
  | case1 folder => cases h
  | case2 folder part rest hpart ih => exact .stay hpart (ih h)
  | case3 folder rest hpart ih => exact .up (ih h)
  | case4 folder part rest hstays henters hlong => cases h
  | case5 folder part hstays henters hshort whole rest hget ih =>
    exact .into ⟨hstays, henters⟩ hshort hget (ih h)
  | case6 folder part hstays henters hshort whole contents hget =>
    obtain rfl : whole = name := Option.some.inj h
    exact .last ⟨hstays, henters⟩ hshort (by rw [hget]; exact nofun)
  | case7 folder part hstays henters hshort whole contents next rest hget => cases h
  | case8 folder part hstays henters hshort whole hget =>
    obtain rfl : whole = name := Option.some.inj h
    exact .last ⟨hstays, henters⟩ hshort (by rw [hget]; exact nofun)
  | case9 folder part hstays henters hshort whole next rest hget => cases h

namespace Walks

/-- The target is no folder, and not the root. -/
theorem target_ne (h : Walks tree folder parts name) :
    name ≠ [] ∧ tree.get? name ≠ some .folder := by
  induction h with
  | stay _ _ ih => exact ih
  | up _ ih => exact ih
  | into _ _ _ _ ih => exact ih
  | last _ _ hname => exact ⟨List.append_ne_nil_of_right_ne_nil _ (List.cons_ne_nil _ _), hname⟩

/-- Following the parts ends at the target. -/
theorem follow_eq (h : Walks tree folder parts name) {contents : ByteArray}
    (hfile : tree.get? name = some (.file contents)) :
    tree.follow folder parts = .found name (.file contents) := by
  induction h with
  | stay hpart _ ih => rw [FileTree.follow, if_pos hpart, ih hfile]
  | up _ ih => rw [FileTree.follow, if_neg (by simp [Path.dot]), if_pos rfl, ih hfile]
  | into hpart hshort hfolder _ ih =>
    rw [FileTree.follow, if_neg hpart.ne_stay, if_neg hpart.ne_up, if_neg hshort]
    simp only [hfolder]
    exact ih hfile
  | last hpart hshort hname =>
    rw [FileTree.follow, if_neg hpart.ne_stay, if_neg hpart.ne_up, if_neg hshort]
    simp only [hfile]

/-- The parts still lead there in a tree that has the same folders. -/
theorem mono (h : Walks tree folder parts name) {tree' : FileTree}
    (hfolders : ∀ x, tree.get? x = some .folder → tree'.get? x = some .folder)
    (hname : tree'.get? name ≠ some .folder) : Walks tree' folder parts name := by
  induction h with
  | stay hpart _ ih => exact .stay hpart (ih hname)
  | up _ ih => exact .up (ih hname)
  | into hpart hshort hfolder _ ih => exact .into hpart hshort (hfolders _ hfolder) (ih hname)
  | last hpart hshort _ => exact .last hpart hshort hname

end Walks

/-- The full name that writing to a path goes to. -/
def target? (tree : FileTree) (path : Path) : Option (List Text) :=
  (tree.place path.text).target?

/-- A path with a target is followed from the root or the current folder. -/
theorem walks_of_target? {path : Path} (h : tree.target? path = some name) :
    ∃ folder parts, Walks tree folder parts name
      ∧ ∀ tree' : FileTree, tree'.current = tree.current →
        tree'.place path.text = tree'.follow folder parts := by
  unfold target? place at h
  unfold place
  by_cases hlimit : pathLimit < path.text.byteLength
  · rw [if_pos hlimit] at h
    cases h
  · rw [if_neg hlimit] at h
    split at h
    · cases h
    · exact ⟨_, _, walks_of_target h, fun tree' _ => if_neg hlimit⟩
    · refine ⟨_, _, walks_of_target h, fun tree' hcurrent => ?_⟩
      rw [if_neg hlimit, hcurrent]

/-- A path that leads to a file leads to it still if all folders are kept. -/
theorem place_of_target? {tree' : FileTree} {path : Path} {contents : ByteArray}
    (h : tree.target? path = some name) (hcurrent : tree'.current = tree.current)
    (hfolders : ∀ x, tree.get? x = some .folder → tree'.get? x = some .folder)
    (hfile : tree'.get? name = some (.file contents)) :
    tree'.place path.text = .found name (.file contents) := by
  obtain ⟨folder, parts, hwalks, hplace⟩ := walks_of_target? h
  have hname : tree'.get? name ≠ some .folder := by
    rw [hfile]
    exact nofun
  rw [hplace tree' hcurrent]
  exact (hwalks.mono hfolders hname).follow_eq hfile

theorem target?_of_place {path : Path} {contents : ByteArray}
    (h : tree.place path.text = .found name (.file contents)) : tree.target? path = some name := by
  rw [target?, h]
  rfl

theorem target?_of_vacant {path : Path} (h : tree.place path.text = .vacant name) :
    tree.target? path = some name := by
  rw [target?, h]
  rfl

/-- A path that leads to a free name leads to no entry. -/
theorem free_of_vacant {path : Path} (h : tree.place path.text = .vacant name) :
    name ≠ [] ∧ tree.get? name = none := by
  obtain ⟨folder, parts, hwalks, hfollow⟩ := walks_of_target? (target?_of_vacant h)
  refine ⟨hwalks.target_ne.1, ?_⟩
  cases hget : tree.get? name with
  | none => rfl
  | some entry =>
    cases entry with
    | folder => exact (hwalks.target_ne.2 hget).elim
    | file contents =>
      rw [hfollow tree rfl, hwalks.follow_eq hget] at h
      cases h

/-- What has become of a tree after files at some paths were written, each with the contents
that belong to its full name: the paths lead to files with these contents, every other file is
as it was, and folders have at most been added. -/
structure Delivers (content : List Text → ByteArray) (tree : FileTree) (paths : List Path)
    (tree' : FileTree) : Prop where
  current : tree'.current = tree.current
  folders : ∀ name, tree.get? name = some .folder → tree'.get? name = some .folder
  written : ∀ path ∈ paths, ∃ name, tree'.target? path = some name
    ∧ tree'.get? name = some (.file (content name))
  others : ∀ name, (∀ path ∈ paths, tree'.target? path ≠ some name) → ∀ contents,
    tree'.get? name = some (.file contents) ↔ tree.get? name = some (.file contents)

namespace Delivers

variable {content : List Text → ByteArray} {tree₁ tree₂ : FileTree} {paths more : List Path}
  {path : Path}

theorem refl (tree : FileTree) : Delivers content tree [] tree :=
  ⟨rfl, fun _ h => h, List.forall_mem_nil _, fun _ _ _ => Iff.rfl⟩

/-- A file that was written keeps the contents of its name. -/
theorem keeps (h : Delivers content tree paths tree₁)
    (hfile : tree.get? name = some (.file (content name))) :
    tree₁.get? name = some (.file (content name)) := by
  by_cases hpath : ∃ path ∈ paths, tree₁.target? path = some name
  · obtain ⟨path, hpath, htarget⟩ := hpath
    obtain ⟨name', htarget', hfile'⟩ := h.written path hpath
    obtain rfl : name' = name := Option.some.inj (htarget'.symm.trans htarget)
    exact hfile'
  · exact (h.others name (fun path hmem htarget => hpath ⟨path, hmem, htarget⟩) _).2 hfile

theorem trans (h₁ : Delivers content tree paths tree₁) (h₂ : Delivers content tree₁ more tree₂) :
    Delivers content tree (paths ++ more) tree₂ := by
  -- a path that was written first still leads to its file
  have hstill : ∀ path ∈ paths, ∀ name, tree₁.target? path = some name →
      tree₂.target? path = some name ∧ tree₂.get? name = some (.file (content name)) := by
    intro path hpath name htarget
    obtain ⟨name', htarget', hfile⟩ := h₁.written path hpath
    obtain rfl : name' = name := Option.some.inj (htarget'.symm.trans htarget)
    have hfile₂ := h₂.keeps hfile
    exact ⟨target?_of_place (place_of_target? htarget h₂.current h₂.folders hfile₂), hfile₂⟩
  refine ⟨h₂.current.trans h₁.current, fun name hname => h₂.folders name (h₁.folders name hname),
    ?_, fun name hname contents => ?_⟩
  · rw [List.forall_mem_append]
    refine ⟨fun path hpath => ?_, h₂.written⟩
    obtain ⟨name, htarget, -⟩ := h₁.written path hpath
    exact ⟨name, hstill path hpath name htarget⟩
  · rw [List.forall_mem_append] at hname
    rw [h₂.others name hname.2, h₁.others name]
    intro path hpath htarget
    exact hname.1 path hpath (hstill path hpath name htarget).1

/-- A new folder changes no file. -/
theorem put_folder (hname : name ≠ []) (hfree : tree.get? name = none) :
    Delivers content tree [] (tree.put name .folder) := by
  refine ⟨rfl, fun other hother => ?_, List.forall_mem_nil _, fun other _ contents => ?_⟩
  · rw [get?_put hname]
    split
    · rfl
    · exact hother
  · rw [get?_put hname]
    split
    · rename_i hother
      rw [hother, hfree]
      constructor <;> exact nofun
    · exact Iff.rfl

/-- A file is written at the target of its path. -/
theorem put_file (h : tree.target? path = some name) :
    Delivers content tree [path] (tree.put name (.file (content name))) := by
  obtain ⟨folder, parts, hwalks, -⟩ := walks_of_target? h
  obtain ⟨hname, hfolder⟩ := hwalks.target_ne
  have hsame : (tree.put name (.file (content name))).get? name = some (.file (content name)) := by
    rw [get?_put hname, if_pos rfl]
  have hfolders : ∀ other, tree.get? other = some .folder →
      (tree.put name (.file (content name))).get? other = some .folder := by
    intro other hother
    have hne : other ≠ name := by
      rintro rfl
      exact hfolder hother
    rw [get?_put hname, if_neg hne, hother]
  have htarget : (tree.put name (.file (content name))).target? path = some name :=
    target?_of_place (place_of_target? h rfl hfolders hsame)
  refine ⟨rfl, hfolders, List.forall_mem_singleton.2 ⟨name, htarget, hsame⟩,
    fun other hother contents => ?_⟩
  have hne : other ≠ name := by
    rintro rfl
    exact List.forall_mem_singleton.1 hother htarget
  rw [get?_put hname, if_neg hne]

theorem makeFolder (h : tree.makeFolder path.text = .ok tree₁) :
    Delivers content tree [] tree₁ := by
  unfold FileTree.makeFolder at h
  cases hplace : tree.place path.text with
  | found name entry =>
    rw [hplace] at h
    cases h
  | failed problem =>
    rw [hplace] at h
    cases h
  | vacant name =>
    rw [hplace] at h
    cases h
    obtain ⟨hname, hfree⟩ := free_of_vacant hplace
    exact put_folder hname hfree

end Delivers

end FileTree

/-! ## Steps on files -/

namespace Files

open FileTree

variable {content : List Text → ByteArray} {tree tree' : FileTree} {path : Path} {u : Unit}

end Files

end Scoreboard
