import Mathlib
import Scoreboard.Console
import Scoreboard.Proofs.Settings

/-!
# Setting up a project

Setting up writes the settings file first and makes the folders of the project afterwards, so a
setup that fails in the middle leaves the settings file behind, and perhaps some of the folders
(`Session.init_leaves_settings`). This is the only way to fail that changes anything, and
`Session.init_outcome` says what there is afterwards in each case.

The folders of a project are made one by one on the way to them. `FileTree.AddsFolders` says what
making folders may do, whether it succeeds or fails, and is closed under doing one after the
other. What is typed in answer to the questions is read line by line; `Plan` is what these lines
and the arguments ask for, and `Session.Asks` relates a step of the command to the lines it
takes.
-/

namespace Scoreboard

/-! ## Folders on the way -/

namespace Path

/-- A path leads through another one, or to it. -/
def IsAbove (way path : Path) : Prop := way.anchor = path.anchor ∧ way.parts <+: path.parts

theorem IsAbove.refl (path : Path) : path.IsAbove path := ⟨rfl, List.prefix_rfl⟩

theorem IsAbove.trans {first second third : Path} (h : first.IsAbove second)
    (h' : second.IsAbove third) : first.IsAbove third :=
  ⟨h.1.trans h'.1, h.2.trans h'.2⟩

end Path

namespace FileTree

variable {tree tree' tree₁ tree₂ : FileTree} {folder name : List Text}
  {parts : List (List CodePoint)} {path : Path} {paths : List Path}

/-- The way to a folder is not changed by more folders. -/
theorem follow_mono (hfolders : ∀ x, tree.get? x = some .folder → tree'.get? x = some .folder)
    (h : tree.follow folder parts = .found name .folder) :
    tree'.follow folder parts = .found name .folder := by
  fun_induction FileTree.follow tree folder parts with
  | case1 folder => exact h
  | case2 folder part rest hpart ih =>
    rw [FileTree.follow, if_pos hpart]
    exact ih h
  | case3 folder rest hpart ih =>
    rw [FileTree.follow, if_neg hpart, if_pos rfl]
    exact ih h
  | case4 folder part rest hstays henters hlong => cases h
  | case5 folder part hstays henters hshort whole rest hget ih =>
    have hget' : tree'.get? (folder ++ [(Text.mk part).diskName]) = some .folder :=
      hfolders _ hget
    rw [FileTree.follow, if_neg hstays, if_neg henters, if_neg hshort]
    simp only [hget']
    exact ih h
  | case6 folder part hstays henters hshort whole contents hget =>
    have hentry : Entry.file contents = .folder := (Place.found.inj h).2
    cases hentry
  | case7 folder part hstays henters hshort whole contents next rest hget => cases h
  | case8 folder part hstays henters hshort whole hget => cases h
  | case9 folder part hstays henters hshort whole next rest hget => cases h

theorem place_mono {text : Text} (hcurrent : tree'.current = tree.current)
    (hfolders : ∀ x, tree.get? x = some .folder → tree'.get? x = some .folder)
    (h : tree.place text = .found name .folder) : tree'.place text = .found name .folder := by
  unfold place at h ⊢
  rw [hcurrent]
  split
  · rename_i hlimit
    rw [if_pos hlimit] at h
    exact h
  · rename_i hlimit
    rw [if_neg hlimit] at h
    split at h
    · cases h
    · exact follow_mono hfolders h
    · exact follow_mono hfolders h

theorem isFolder_iff {text : Text} :
    tree.isFolder text = true ↔ ∃ name, tree.place text = .found name .folder := by
  unfold isFolder
  constructor
  · intro h
    split at h
    · rename_i name hplace
      exact ⟨name, hplace⟩
    · cases h
  · rintro ⟨name, hplace⟩
    rw [hplace]

/-- Parts that lead to a free name lead to a folder that is made there. -/
theorem Walks.follow_folder (h : Walks tree folder parts name)
    (hfolders : ∀ x, tree.get? x = some .folder → tree'.get? x = some .folder)
    (hname : tree'.get? name = some .folder) :
    tree'.follow folder parts = .found name .folder := by
  induction h with
  | stay hpart _ ih => rw [FileTree.follow, if_pos hpart, ih hname]
  | up _ ih => rw [FileTree.follow, if_neg (by simp [Path.dot]), if_pos rfl, ih hname]
  | into hpart hshort hfolder _ ih =>
    rw [FileTree.follow, if_neg hpart.ne_stay, if_neg hpart.ne_up, if_neg hshort]
    simp only [hfolders _ hfolder]
    exact ih hname
  | last hpart hshort _ =>
    rw [FileTree.follow, if_neg hpart.ne_stay, if_neg hpart.ne_up, if_neg hshort]
    simp only [hname]
    rw [FileTree.follow]

/-- What making the folders of some paths may do to a tree: all there is stays, and what is new
is a folder on the way to one of the paths. -/
structure AddsFolders (paths : List Path) (tree tree' : FileTree) : Prop where
  current : tree'.current = tree.current
  kept : ∀ name entry, tree.get? name = some entry → tree'.get? name = some entry
  added : ∀ name entry, tree'.get? name = some entry → tree.get? name = some entry
    ∨ ∃ path ∈ paths, ∃ way : Path, way.IsAbove path
      ∧ tree'.place way.text = .found name .folder ∧ entry = .folder

namespace AddsFolders

theorem refl (paths : List Path) (tree : FileTree) : AddsFolders paths tree tree :=
  ⟨rfl, fun _ _ h => h, fun _ _ h => .inl h⟩

theorem place (h : AddsFolders paths tree tree') {text : Text}
    (hplace : tree.place text = .found name .folder) : tree'.place text = .found name .folder :=
  place_mono h.current (fun name => h.kept name .folder) hplace

theorem isFolder (h : AddsFolders paths tree tree') {text : Text}
    (hfolder : tree.isFolder text = true) : tree'.isFolder text = true := by
  obtain ⟨name, hplace⟩ := isFolder_iff.1 hfolder
  exact isFolder_iff.2 ⟨name, h.place hplace⟩

theorem trans (h₁ : AddsFolders paths tree tree₁) (h₂ : AddsFolders paths tree₁ tree₂) :
    AddsFolders paths tree tree₂ := by
  refine ⟨h₂.current.trans h₁.current,
    fun name entry hentry => h₂.kept name entry (h₁.kept name entry hentry),
    fun name entry hentry => ?_⟩
  obtain hentry | hnew := h₂.added name entry hentry
  · obtain hentry | ⟨path, hpath, way, hway, hplace, hfolder⟩ := h₁.added name entry hentry
    · exact .inl hentry
    · exact .inr ⟨path, hpath, way, hway, h₂.place hplace, hfolder⟩
  · exact .inr hnew

/-- The same for paths that lead further. -/
theorem mono {longer : List Path} (h : AddsFolders paths tree tree')
    (hpaths : ∀ path ∈ paths, ∃ path' ∈ longer, path.IsAbove path') :
    AddsFolders longer tree tree' := by
  refine ⟨h.current, h.kept, fun name entry hentry => ?_⟩
  obtain hentry | ⟨path, hpath, way, hway, hnew⟩ := h.added name entry hentry
  · exact .inl hentry
  · obtain ⟨path', hpath', habove⟩ := hpaths path hpath
    exact .inr ⟨path', hpath', way, hway.trans habove, hnew⟩

/-- A file stays where its path leads. -/
theorem read (h : AddsFolders paths tree tree') {contents : ByteArray}
    (htarget : tree.target? path = some name) (hfile : tree.get? name = some (.file contents)) :
    tree'.read path.text = .ok contents := by
  have hplace := place_of_target? htarget h.current (fun x => h.kept x .folder)
    (h.kept name (.file contents) hfile)
  rw [FileTree.read, hplace]

/-- Making a folder makes it at the end of its path. -/
theorem makeFolder (h : tree.makeFolder path.text = .ok tree') :
    AddsFolders [path] tree tree' ∧ tree'.isFolder path.text = true := by
  have hkeeps := (@Delivers.makeFolder tree (fun _ => .empty) tree' path h).folders
  unfold FileTree.makeFolder at h
  split at h
  · cases h
  · rename_i name hvacant
    obtain rfl : tree.put name .folder = tree' := Except.ok.inj h
    obtain ⟨hname, hfree⟩ := free_of_vacant hvacant
    obtain ⟨folder, parts, hwalks, hfollow⟩ := walks_of_target? (target?_of_vacant hvacant)
    have hget : ∀ x, (tree.put name .folder).get? x
        = if x = name then some .folder else tree.get? x := get?_put hname .folder
    have hplace : (tree.put name .folder).place path.text = .found name .folder := by
      rw [hfollow (tree.put name .folder) rfl]
      exact hwalks.follow_folder hkeeps (by rw [hget, if_pos rfl])
    refine ⟨⟨rfl, fun other entry hentry => ?_, fun other entry hentry => ?_⟩,
      isFolder_iff.2 ⟨name, hplace⟩⟩
    · have hne : other ≠ name := by
        rintro rfl
        rw [hfree] at hentry
        cases hentry
      rw [hget, if_neg hne, hentry]
    · rw [hget] at hentry
      split at hentry
      · rename_i hsame
        subst hsame
        exact .inr ⟨path, List.mem_singleton_self path, path, .refl path, hplace,
          (Option.some.inj hentry).symm⟩
      · exact .inl hentry
  · cases h

end AddsFolders

end FileTree

/-! ## Making folders -/

namespace Files

open FileTree

theorem ensures_checkPath_bind {α : Type} {text : Text} {step : Unit → Files α} {tree : FileTree}
    {good : α → FileTree → Prop} {bad : Fault → FileTree → Prop}
    (hbad : ∀ flaw, bad (.flawedPath flaw) tree) (h : Ensures (step ()) tree good bad) :
    Ensures (checkPath text >>= step) tree good bad := by
  rw [ensures_bind]
  unfold checkPath
  cases pathFlaw? text with
  | none => exact h
  | some flaw => exact hbad flaw

/-- The last folder of a path is there afterwards, unless this fails. -/
theorem makeLastFolder_adds (path : Path) (tree : FileTree) :
    Ensures (makeLastFolder path) tree
      (fun _ tree' => AddsFolders [path] tree tree' ∧ tree'.isFolder path.text = true)
      fun _ tree' => AddsFolders [path] tree tree' := by
  unfold makeLastFolder
  apply ensures_checkPath_bind fun _ => AddsFolders.refl [path] tree
  rw [ensures_get_bind]
  split
  · rename_i made hmade
    exact AddsFolders.makeFolder hmade
  · split
    · rename_i hfolder
      exact ⟨.refl [path] tree, hfolder⟩
    · exact AddsFolders.refl [path] tree

theorem makeFoldersTo_adds (anchor : Anchor) (names : List Text) (tree : FileTree) :
    Ensures (makeFoldersTo anchor names) tree
      (fun _ tree' => AddsFolders [⟨anchor, names.reverse⟩] tree tree'
        ∧ tree'.isFolder (Path.mk anchor names.reverse).text = true)
      fun _ tree' => AddsFolders [⟨anchor, names.reverse⟩] tree tree' := by
  induction names generalizing tree with
  | nil => exact makeLastFolder_adds ⟨anchor, []⟩ tree
  | cons name rest ih =>
    rw [makeFoldersTo]
    apply ensures_checkPath_bind fun _ => AddsFolders.refl _ tree
    rw [ensures_get_bind]
    split
    · rename_i made hmade
      exact AddsFolders.makeFolder hmade
    · split
      · -- the folders above come first, and lie on the same way
        have habove : ∀ path ∈ [Path.mk anchor rest.reverse],
            ∃ path' ∈ [Path.mk anchor (name :: rest).reverse], path.IsAbove path' := by
          rw [List.forall_mem_singleton, List.reverse_cons]
          exact ⟨_, List.mem_singleton_self _, rfl, List.prefix_append _ _⟩
        apply ((ih tree).mono (fun _ _ h => h) fun _ _ h => h.mono habove).bind
        rintro _ tree₁ ⟨hfirst, -⟩
        refine (makeLastFolder_adds _ tree₁).mono (fun _ tree₂ h => ?_) fun _ tree₂ h => ?_
        · exact ⟨(hfirst.mono habove).trans h.1, h.2⟩
        · exact (hfirst.mono habove).trans h
      · rw [ensures_get_bind]
        split
        · rename_i hfolder
          exact ⟨.refl _ tree, hfolder⟩
        · exact AddsFolders.refl _ tree

theorem makeFolders_adds (path : Path) (tree : FileTree) :
    Ensures (makeFolders path) tree
      (fun _ tree' => AddsFolders [path] tree tree' ∧ tree'.isFolder path.text = true)
      fun _ tree' => AddsFolders [path] tree tree' := by
  have h := makeFoldersTo_adds path.anchor path.parts.reverse tree
  rw [List.reverse_reverse] at h
  exact h

end Files

/-! ## Plans -/

/-- What the arguments and answers of a setup ask for: the settings, whether the folders are
wanted, and whether to go ahead. -/
structure Plan where
  name : Text
  space : Text
  source : Text
  output : Text
  structured : Bool
  accepted : Bool

namespace Plan

/-- The settings of the project. -/
def project (plan : Plan) : Project :=
  ⟨.string plan.name, .string plan.space, .string plan.source, .string plan.output⟩

/-- The folder of the namespace among the sources, and the folder of the output. -/
def folders (plan : Plan) (root : Path) : List Path :=
  [(root.join plan.source).join plan.space, root.join plan.output]

/-- The folders are made one after the other. -/
theorem scaffold_adds (plan : Plan) (root : Path) (tree : FileTree) :
    Ensures (plan.project.scaffold root) tree
      (fun _ tree' => (∀ path ∈ plan.folders root, tree'.isFolder path.text = true)
        ∧ FileTree.AddsFolders (plan.folders root) tree tree')
      fun _ tree' => FileTree.AddsFolders (plan.folders root) tree tree' := by
  have hfirst : ∀ path ∈ [(root.join plan.source).join plan.space],
      ∃ path' ∈ plan.folders root, path.IsAbove path' := by
    rw [List.forall_mem_singleton]
    exact ⟨_, List.mem_cons_self, .refl _⟩
  have hsecond : ∀ path ∈ [root.join plan.output],
      ∃ path' ∈ plan.folders root, path.IsAbove path' := by
    rw [List.forall_mem_singleton]
    exact ⟨_, List.mem_cons_of_mem _ (List.mem_singleton_self _), .refl _⟩
  show Ensures (Files.makeFolders ((root.join plan.source).join plan.space) >>= fun _ =>
    Files.makeFolders (root.join plan.output)) tree _ _
  apply ((Files.makeFolders_adds _ tree).mono (fun _ _ h => h) fun _ _ h => h.mono hfirst).bind
  rintro _ tree₁ ⟨hadds, hfolder⟩
  refine (Files.makeFolders_adds _ tree₁).mono (fun _ tree₂ h => ?_) fun _ tree₂ h => ?_
  · have hfolders : ∀ path ∈ plan.folders root, tree₂.isFolder path.text = true := by
      rw [folders, List.forall_mem_cons, List.forall_mem_singleton]
      exact ⟨h.1.isFolder hfolder, h.2⟩
    exact ⟨hfolders, (hadds.mono hfirst).trans (h.1.mono hsecond)⟩
  · exact (hadds.mono hfirst).trans (h.mono hsecond)

end Plan

/-- Steps that take the typed lines one by one. -/
abbrev Replies := EStateM Fault (List (List Char))

namespace Replies

/-- The next line. -/
def line : Replies (List Char) := do
  match ← get with
  | [] => throw .endOfInput
  | line :: rest =>
    set rest
    return line

/-- A setting: the given one, or the next line without the blanks around it, or the default if
nothing is left of that. -/
def setting (flag : Option String) (default : Text) : Replies Text :=
  match Session.givenString flag with
  | some text => return text
  | none => do
    let answer := Text.trim (← line)
    return if answer.isEmpty then default else Text.ofChars answer

/-- Whether the next line is empty or a yes. -/
def consent : Replies Bool := do
  let answer := Text.trim (← line)
  let word := String.ofList (answer.map Char.toLower)
  return answer.isEmpty || word == "y" || word == "yes"

/-- The plan of a setup. -/
def plan (choices : Arguments.Init) (folderName : Text) : Replies Plan := do
  let name ← setting choices.name folderName
  let space ← setting choices.space name
  let source ← setting choices.source "./src"
  let output ← setting choices.output "./out"
  let structured ← if choices.noStructure then pure false else consent
  return ⟨name, space, source, output, structured, ← consent⟩

end Replies

/-- The lines of a typed text. The last one may do without its newline. -/
def typedLines (input : List Char) : List (List Char) :=
  let lines := Text.split '\n' input
  if lines.getLast? = some [] then lines.dropLast else lines

theorem typedLines_of_ne_nil {input : List Char} (h : input ≠ []) :
    typedLines input = input.takeWhile (· != '\n')
      :: typedLines ((input.dropWhile (· != '\n')).drop 1) := by
  have happend := List.takeWhile_append_dropWhile (p := (· != '\n')) (l := input)
  have hline : '\n' ∉ input.takeWhile (· != '\n') := by
    intro hmem
    have hne := List.mem_takeWhile_imp hmem
    exact absurd hne (by decide)
  generalize input.takeWhile (· != '\n') = line at happend hline ⊢
  cases hrest : input.dropWhile (· != '\n') with
  | nil =>
    rw [hrest, List.append_nil] at happend
    subst happend
    have hlast : ¬([line].getLast? = some []) := by
      simpa using h
    rw [typedLines, Text.split_of_notMem hline]
    exact if_neg hlast
  | cons c rest =>
    obtain rfl : c = '\n' := by
      have hhead := List.head?_dropWhile_not (· != '\n') input
      rw [hrest] at hhead
      simpa using hhead
    rw [hrest] at happend
    obtain ⟨piece, more, hmore⟩ := Text.exists_split_cons '\n' rest
    show _ = line :: typedLines rest
    rw [← happend, typedLines, typedLines, Text.split_append, Text.split_of_notMem hline, hmore]
    simp only [List.singleton_append, List.getLast?_cons_cons, List.dropLast_cons_cons]
    split <;> rfl

/-! ## Questions -/

namespace Session

variable {α β : Type}

/-- A step that takes typed lines and changes no files. -/
def Asks (step : Session α) (reply : Replies α) : Prop :=
  KeepsTree step ∧ Follows id (fun c => typedLines c.input) id reply step

theorem asks_pure (x : α) : Asks (pure x) (pure x) := ⟨keepsTree_pure, follows_pure rfl⟩

theorem Asks.bind {x : Session α} {x' : Replies α} {f : α → Session β} {f' : α → Replies β}
    (hx : Asks x x') (hf : ∀ a, Asks (f a) (f' a)) : Asks (x >>= f) (x' >>= f') :=
  ⟨keepsTree_bind hx.1 fun a => (hf a).1, hx.2.bind fun a => (hf a).2⟩

/-- Printing takes no line. -/
theorem Asks.after_print {step : Session α} {reply : Replies α} (h : Asks step reply)
    (text : Text) : Asks (print text >>= fun _ => step) reply :=
  ⟨keepsTree_bind (keepsTree_print text) fun _ => h.1,
    fun c => h.2 { c with output := c.output ++ (text ++ "\n") }⟩

theorem asks_readLine (prompt : Text) : Asks (readLine prompt) Replies.line := by
  constructor
  · rintro ⟨tree, input, output, errors⟩
    cases input <;> rfl
  · rintro ⟨tree, input, output, errors⟩
    show Replies.line (typedLines input) = _
    cases input with
    | nil => rfl
    | cons c rest =>
      rw [typedLines_of_ne_nil (List.cons_ne_nil c rest)]
      rfl

theorem asks_givenOrAsk (flag : Option String) (question : String) (default : Text) :
    Asks (givenOrAsk flag question default) (Replies.setting flag default) := by
  unfold givenOrAsk Replies.setting
  cases givenString flag with
  | some text => exact asks_pure text
  | none => exact (asks_readLine _).bind fun _ => asks_pure _

theorem asks_confirm (question : String) : Asks (confirm question) Replies.consent :=
  (asks_readLine _).bind fun _ => asks_pure _

/-- The questions of a setup. -/
def wizard (choices : Arguments.Init) (folderName : Text) : Session Plan := do
  print intro
  let name ← givenOrAsk choices.name "Name" folderName
  let space ← givenOrAsk choices.space "Namespace" name
  let source ← givenOrAsk choices.source "Source folder" "./src"
  let output ← givenOrAsk choices.output "Output folder" "./out"
  let structured ←
    if choices.noStructure then pure false
    else confirm "Generate corresponding file structure?"
  print ""
  return ⟨name, space, source, output, structured, ← confirm "Proceed with the setup?"⟩

theorem asks_wizard (choices : Arguments.Init) (folderName : Text) :
    Asks (wizard choices folderName) (Replies.plan choices folderName) := by
  unfold wizard Replies.plan
  apply Asks.after_print
  apply (asks_givenOrAsk _ _ _).bind fun name => ?_
  apply (asks_givenOrAsk _ _ _).bind fun space => ?_
  apply (asks_givenOrAsk _ _ _).bind fun source => ?_
  apply (asks_givenOrAsk _ _ _).bind fun output => ?_
  have hlast : ∀ structured, Asks (do
      print ""
      return Plan.mk name space source output structured (← confirm "Proceed with the setup?"))
      (do return ⟨name, space, source, output, structured, ← Replies.consent⟩) := by
    intro structured
    apply Asks.after_print
    exact (asks_confirm _).bind fun _ => asks_pure _
  by_cases hstructure : choices.noStructure
  · rw [if_pos hstructure, if_pos hstructure]
    exact (asks_pure false).bind hlast
  · rw [if_neg hstructure, if_neg hstructure]
    exact (asks_confirm _).bind hlast

/-- What follows the questions. -/
def conclude (plan : Plan) : Session Nat :=
  if plan.accepted then setUp plan.project plan.structured
  else do
    print "Setup wizard aborted."
    return 1

theorem init_eq (choices : Arguments.Init) :
    init choices = root >>= fun root =>
      let folderName : Text := if root.name.isEmpty then defaultSpace else root.name
      if choices.yes then setUp (defaults choices folderName) (!choices.noStructure)
      else wizard choices folderName >>= conclude := by
  unfold init wizard askSettings conclude
  by_cases hstructure : choices.noStructure = true
  · simp only [bind_assoc, pure_bind, if_pos hstructure]
    rfl
  · simp only [bind_assoc, pure_bind, if_neg hstructure]
    rfl

end Session

namespace Replies

variable {p : Text → Prop} {folderName : Text}

/-- Only the end of the input stops the questions, and a setting is the default or has been typed
or given. -/
theorem setting_ensures (hwhole : ∀ text : Text, text.isWhole = true → p text) {default : Text}
    (hdefault : p default) (flag : Option String) (lines : List (List Char)) :
    Ensures (setting flag default) lines (fun text _ => p text)
      fun fault _ => fault = .endOfInput := by
  have hchars : ∀ chars, p (Text.ofChars chars) := by
    intro chars
    apply hwhole
    simp [Text.isWhole, Text.ofChars, CodePoint.char?]
  unfold setting
  cases hgiven : Session.givenString flag with
  | some text =>
    obtain ⟨s, -, rfl⟩ := Option.map_eq_some_iff.1 (Option.filter_eq_some_iff.1 hgiven).1
    exact hchars s.toList
  | none =>
    cases lines with
    | nil => rfl
    | cons line rest =>
      show p (if (Text.trim line).isEmpty then default else Text.ofChars (Text.trim line))
      split
      · exact hdefault
      · exact hchars _

theorem consent_ensures (lines : List (List Char)) :
    Ensures consent lines (fun _ _ => True) fun fault _ => fault = .endOfInput := by
  cases lines with
  | nil => rfl
  | cons line rest => trivial

theorem plan_ensures (hwhole : ∀ text : Text, text.isWhole = true → p text) (hname : p folderName)
    (choices : Arguments.Init) (lines : List (List Char)) :
    Ensures (plan choices folderName) lines (fun plan _ => plan.project.AllTexts p)
      fun fault _ => fault = .endOfInput := by
  unfold plan
  apply (setting_ensures hwhole hname _ _).bind
  intro name _ hname
  apply (setting_ensures hwhole hname _ _).bind
  intro space _ hspace
  apply (setting_ensures hwhole (hwhole _ rfl) _ _).bind
  intro source _ hsource
  apply (setting_ensures hwhole (hwhole _ rfl) _ _).bind
  intro output _ houtput
  have hall : ∀ structured lines, Ensures (do
      return Plan.mk name space source output structured (← consent)) lines
      (fun plan _ => plan.project.AllTexts p) fun fault _ => fault = .endOfInput := by
    intro structured lines
    apply (consent_ensures lines).bind
    intro accepted _ _
    exact ⟨⟨name, rfl, hname⟩, ⟨space, rfl, hspace⟩, ⟨source, rfl, hsource⟩, output, rfl, houtput⟩
  split
  · exact hall false _
  · exact (consent_ensures _).bind fun structured lines _ => hall structured lines

/-- An empty answer to every question is what is asked for without questions. -/
theorem plan_replicate (choices : Arguments.Init) (folderName : Text) :
    ∃ plan, (Replies.plan choices folderName).run' (List.replicate 6 []) = some plan
      ∧ plan.project = Session.defaults choices folderName
      ∧ plan.structured = !choices.noStructure ∧ plan.accepted = true := by
  unfold Session.defaults Replies.plan setting
  cases Session.givenString choices.name <;> cases Session.givenString choices.space <;>
    cases Session.givenString choices.source <;> cases Session.givenString choices.output <;>
    cases choices.noStructure <;> exact ⟨_, rfl, rfl, rfl, rfl⟩

end Replies

/-! ## The name of the folder -/

/-- Only a second half of a pair stands for a byte. -/
theorem CodePoint.not_isHigh_of_bytes? {point : CodePoint} (h : point.bytes?.isSome = true) :
    ¬point.IsHigh := by
  unfold IsHigh
  cases point with
  | char c =>
    have hcode := code_char_notMem c
    unfold firstHalf at hcode
    omega
  | half offset =>
    have hrange : 0xDC80 ≤ (half offset).code ∧ (half offset).code < 0xDD00 := by
      by_contra hrange
      rw [bytes?, if_neg hrange] at h
      cases h
    omega

theorem Text.isSome_of_bytes? {text : Text} (h : text.bytes?.isSome = true) :
    ∀ point ∈ text.points, point.bytes?.isSome = true := by
  unfold Text.bytes? at h
  rw [Option.isSome_map] at h
  generalize text.points = points at h
  induction points with
  | nil => exact List.forall_mem_nil _
  | cons point points ih =>
    rw [List.mapM_cons] at h
    cases hpoint : point.bytes? with
    | none =>
      rw [hpoint] at h
      cases h
    | some bytes =>
      cases hrest : points.mapM CodePoint.bytes? with
      | none =>
        rw [hpoint, hrest] at h
        cases h
      | some rest =>
        rw [hrest] at ih
        exact List.forall_mem_cons.2 ⟨by rw [hpoint]; rfl, ih rfl⟩

theorem Text.mem_points_join {separator part : Text} {parts : List Text} {point : CodePoint}
    (hpart : part ∈ parts) (hpoint : point ∈ part.points) :
    point ∈ (Text.join separator parts).points := by
  fun_induction Text.join separator parts with
  | case1 => cases hpart
  | case2 last =>
    rw [← List.mem_singleton.1 hpart]
    exact hpoint
  | case3 first second rest ih =>
    show point ∈ first.points ++ (separator.points ++ (Text.join separator (second :: rest)).points)
    rw [List.mem_append, List.mem_append]
    obtain rfl | hpart := List.mem_cons.1 hpart
    · exact .inl hpoint
    · exact .inr (.inr (ih hpart))

/-- The name of a folder in which a file can be written has no first half of a pair. -/
theorem Path.noPair_name {root : Path} (h : pathFlaw? (root.join configName).text = none) :
    root.name.NoPair := by
  have hbytes : (root.join configName).text.bytes?.isSome = true := by
    unfold pathFlaw? at h
    split at h
    · cases h
    · rename_i hnone
      rwa [Option.isNone_iff_eq_none, ← ne_eq, ← Option.isSome_iff_ne_none] at hnone
  have hconfig : IsFileName configName := by
    refine ⟨?_, by decide, by decide, by decide⟩
    unfold Text.HasNoSlash
    decide
  apply Text.noPair_of_forall
  intro point hpoint
  apply CodePoint.not_isHigh_of_bytes?
  apply Text.isSome_of_bytes? hbytes
  by_cases hparts : root.parts = []
  · rw [name, hparts] at hpoint
    cases hpoint
  · have hmem : root.name ∈ (root.join configName).parts := by
      rw [hconfig.parts_join]
      exact List.mem_append_left _ (name_mem_parts hparts)
    rw [text, if_neg]
    · exact List.mem_append_right _ (Text.mem_points_join hmem hpoint)
    · rintro ⟨-, hnil⟩
      rw [hnil] at hmem
      cases hmem

/-! ## Outcomes -/

/-- The folder of a new project. -/
def FileTree.here (tree : FileTree) : Path := ⟨.root, tree.current⟩

/-- The name of a new project, unless another one is chosen. -/
def FileTree.projectName (tree : FileTree) : Text :=
  if tree.here.name.isEmpty then defaultSpace else tree.here.name

/-- What a setup is asked for at a console, none if the input ends before the questions. Without
questions it is what empty answers ask for. -/
def Console.plan? (c : Console) (choices : Arguments.Init) : Option Plan :=
  (Replies.plan choices c.tree.projectName).run'
    (if choices.yes then List.replicate 6 [] else typedLines c.input)

/-- The settings of a plan are in their file and load back, and besides there are at most new
folders, all on the way to the folders of the project. -/
structure Plan.SetUp (plan : Plan) (root : Path) (before after : FileTree) : Prop where
  loads : Project.load root after = .ok plan.project after
  changes : ∃ full, before.target? (root.join configName) = some full
    ∧ FileTree.AddsFolders (if plan.structured then plan.folders root else [])
        (before.put full (.file plan.project.toJson.write.toUTF8)) after

theorem Console.noPair_of_plan? {c : Console} {choices : Arguments.Init} {plan : Plan}
    (h : c.plan? choices = some plan)
    (hflaw : pathFlaw? (c.tree.here.join configName).text = none) :
    plan.project.AllTexts Text.NoPair := by
  have hname : c.tree.projectName.NoPair := by
    unfold FileTree.projectName
    split
    · exact Text.noPair_of_isWhole rfl
    · exact Path.noPair_name hflaw
  have hplan := Replies.plan_ensures (fun _ => Text.noPair_of_isWhole) hname choices
    (if choices.yes then List.replicate 6 [] else typedLines c.input)
  obtain ⟨lines, hrun⟩ := run'_eq_some.1 h
  exact hplan.ok hrun

/-- A settings file that was written stays readable while folders are added. -/
theorem Plan.setUp_of_adds {plan : Plan} {root : Path} {before after : FileTree}
    {full : List Text} (hplan : plan.project.AllTexts Text.NoPair)
    (hflaw : pathFlaw? (root.join configName).text = none)
    (htarget : before.target? (root.join configName) = some full)
    (hadds : FileTree.AddsFolders (if plan.structured then plan.folders root else [])
      (before.put full (.file plan.project.toJson.write.toUTF8)) after) :
    plan.SetUp root before after := by
  refine ⟨Project.load_of_read hplan hflaw ?_, full, htarget, hadds⟩
  have hput := @FileTree.Delivers.put_file before full
    (fun _ => plan.project.toJson.write.toUTF8) (root.join configName) htarget
  obtain ⟨full', htarget', hfile⟩ := hput.written _ (List.mem_singleton_self _)
  exact hadds.read htarget' hfile

namespace Session

theorem onFiles_of_ok {α : Type} {step : Files α} {c : Console} {value : α} {tree : FileTree}
    (h : step c.tree = .ok value tree) : onFiles step c = .ok value { c with tree } := by
  unfold onFiles
  rw [h]

theorem onFiles_of_error {α : Type} {step : Files α} {c : Console} {fault : Fault}
    {tree : FileTree} (h : step c.tree = .error fault tree) :
    onFiles step c = .error fault { c with tree } := by
  unfold onFiles
  rw [h]

/-- The ways in which setting up can end: it writes the settings and makes the folders if they
are wanted, or it does not get the settings written, or it stops at a folder. -/
theorem setUp_cases {plan : Plan} {c : Console}
    (hplan : pathFlaw? (c.tree.here.join configName).text = none →
      plan.project.AllTexts Text.NoPair) :
    (∃ c', setUp plan.project plan.structured c = .ok 0 c'
      ∧ plan.SetUp c.tree.here c.tree c'.tree
      ∧ (plan.structured = true →
        ∀ path ∈ plan.folders c.tree.here, c'.tree.isFolder path.text = true))
    ∨ (∃ fault c', setUp plan.project plan.structured c = .error fault c' ∧ c'.tree = c.tree
      ∧ plan.project.save c.tree.here c.tree = .error fault c.tree)
    ∨ ∃ fault c', setUp plan.project plan.structured c = .error fault c'
      ∧ plan.structured = true ∧ plan.SetUp c.tree.here c.tree c'.tree
      ∧ ∃ path saved, plan.project.save c.tree.here c.tree = .ok path saved
        ∧ plan.project.scaffold c.tree.here saved = .error fault c'.tree := by
  have hroot : root c = .ok c.tree.here c := rfl
  unfold setUp
  rw [bind_of_ok hroot]
  obtain ⟨full, hflaw, htarget, hsave⟩ | ⟨fault, -, hsave⟩ :=
    Project.save_cases plan.project c.tree.here c.tree
  · have hsetUp := fun after => @Plan.setUp_of_adds plan c.tree.here c.tree after full
      (hplan hflaw) hflaw htarget
    rw [bind_of_ok (onFiles_of_ok hsave)]
    generalize c.tree.put full (.file plan.project.toJson.write.toUTF8) = saved at hsave hsetUp ⊢
    by_cases hstructured : plan.structured = true
    · rw [if_pos hstructured] at hsetUp ⊢
      have hscaffold := plan.scaffold_adds c.tree.here saved
      cases hrun : plan.project.scaffold c.tree.here saved with
      | ok u after =>
        obtain ⟨hfolders, hadds⟩ := hscaffold.ok hrun
        left
        rw [bind_of_ok (onFiles_of_ok hrun)]
        exact ⟨_, rfl, hsetUp after hadds, fun _ => hfolders⟩
      | error fault after =>
        right
        right
        rw [bind_of_error (onFiles_of_error hrun)]
        exact ⟨_, _, rfl, hstructured, hsetUp after (hscaffold.error hrun), _, saved, hsave, hrun⟩
    · rw [if_neg hstructured] at hsetUp ⊢
      exact .inl ⟨_, rfl, hsetUp saved (.refl [] saved), fun h => absurd h hstructured⟩
  · right
    left
    rw [bind_of_error (onFiles_of_error hsave)]
    exact ⟨_, _, rfl, rfl, hsave⟩

/-- Setting up starts with a plan, or the input ends before there is one. -/
theorem init_cases (choices : Arguments.Init) (c : Console) :
    (∃ plan c₁, c.plan? choices = some plan ∧ c₁.tree = c.tree
      ∧ init choices c = conclude plan c₁)
    ∨ ∃ c', c.plan? choices = none ∧ c'.tree = c.tree
      ∧ init choices c = .error .endOfInput c' := by
  have hinit : init choices c = (if choices.yes
      then setUp (defaults choices c.tree.projectName) (!choices.noStructure)
      else wizard choices c.tree.projectName >>= conclude) c := by
    rw [init_eq]
    rfl
  unfold Console.plan?
  by_cases hyes : choices.yes = true
  · rw [if_pos hyes] at hinit ⊢
    obtain ⟨plan, hplan, hproject, hstructured, haccepted⟩ :=
      Replies.plan_replicate choices c.tree.projectName
    refine .inl ⟨plan, c, hplan, rfl, ?_⟩
    rw [hinit, conclude, if_pos haccepted, hproject, hstructured]
  · rw [if_neg hyes] at hinit ⊢
    obtain ⟨hkeeps, hfollows⟩ := asks_wizard choices c.tree.projectName
    have hreply := hfollows c
    cases hrun : wizard choices c.tree.projectName c with
    | ok plan c₁ =>
      rw [hrun] at hreply
      refine .inl ⟨plan, c₁, run'_eq_some.2 ⟨_, hreply⟩, (hkeeps c).ok hrun, ?_⟩
      rw [hinit, bind_of_ok hrun]
    | error fault c' =>
      rw [hrun] at hreply
      obtain rfl : fault = .endOfInput := (@Replies.plan_ensures (fun _ => True) _
        (fun _ _ => trivial) trivial choices (typedLines c.input)).error hreply
      refine .inr ⟨c', run'_eq_none.2 ⟨_, _, hreply⟩, (hkeeps c).error hrun, ?_⟩
      rw [hinit, bind_of_error hrun]

/-- The outcomes of a setup, for all files, arguments and answers. It ends with 0 if the settings
have been written, so that they load back as they were chosen, and their folders are there if
they were wanted. Otherwise the files are as before, because the setup was given up, the input
ended, or the settings could not be written. Only a setup that fails while it makes folders leaves
something behind: the settings, and new folders on the way to those of the project. -/
theorem init_outcome (choices : Arguments.Init) (c : Console) :
    (∃ plan c', c.plan? choices = some plan ∧ plan.accepted = true
      ∧ init choices c = .ok 0 c' ∧ plan.SetUp c.tree.here c.tree c'.tree
      ∧ (plan.structured = true →
        ∀ path ∈ plan.folders c.tree.here, c'.tree.isFolder path.text = true))
    ∨ (∃ plan c', c.plan? choices = some plan ∧ plan.accepted = false
      ∧ init choices c = .ok 1 c' ∧ c'.tree = c.tree)
    ∨ (∃ c', c.plan? choices = none
      ∧ init choices c = .error .endOfInput c' ∧ c'.tree = c.tree)
    ∨ (∃ plan fault c', c.plan? choices = some plan ∧ plan.accepted = true
      ∧ plan.project.save c.tree.here c.tree = .error fault c.tree
      ∧ init choices c = .error fault c' ∧ c'.tree = c.tree)
    ∨ ∃ plan fault c', c.plan? choices = some plan ∧ plan.accepted = true
      ∧ plan.structured = true
      ∧ (∃ path saved, plan.project.save c.tree.here c.tree = .ok path saved
        ∧ plan.project.scaffold c.tree.here saved = .error fault c'.tree)
      ∧ init choices c = .error fault c' ∧ plan.SetUp c.tree.here c.tree c'.tree := by
  obtain ⟨plan, c₁, hplan, htree, hinit⟩ | ⟨c', hplan, htree, hinit⟩ := init_cases choices c
  · rw [hinit, conclude]
    by_cases haccepted : plan.accepted = true
    · rw [if_pos haccepted]
      have hcases := @setUp_cases plan c₁
      rw [htree] at hcases
      obtain ⟨c', hrun, hsetUp, hfolders⟩ | ⟨fault, c', hrun, htree', hsave⟩
        | ⟨fault, c', hrun, hstructured, hsetUp, hstop⟩ := hcases (c.noPair_of_plan? hplan)
      · exact .inl ⟨plan, c', hplan, haccepted, hrun, hsetUp, hfolders⟩
      · exact .inr (.inr (.inr (.inl ⟨plan, fault, c', hplan, haccepted, hsave, hrun, htree'⟩)))
      · exact .inr (.inr (.inr (.inr
          ⟨plan, fault, c', hplan, haccepted, hstructured, hstop, hrun, hsetUp⟩)))
    · rw [if_neg haccepted]
      exact .inr (.inl ⟨plan, _, hplan, Bool.eq_false_of_not_eq_true haccepted, rfl, htree⟩)
  · exact .inr (.inr (.inl ⟨c', hplan, hinit, htree⟩))

/-- A file in the place of the folder of the sources stops the setup, and the settings stay. -/
theorem init_leaves_settings :
    let tree : FileTree := { entries := [(["src"], .file .empty)] }
    ¬Ensures (init { yes := true }) { tree } (fun code c' => code ≠ 0 → c'.tree = tree)
      fun _ c' => c'.tree = tree := by
  decide +kernel

end Session

end Scoreboard
