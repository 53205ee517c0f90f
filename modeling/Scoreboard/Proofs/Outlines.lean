import Mathlib
import Scoreboard.Script.Outline
import Scoreboard.Proofs.Delivery
import Scoreboard.Proofs.Escapes
import Scoreboard.Proofs.Literals
import Scoreboard.Proofs.RoundTrip
import Scoreboard.Proofs.Tokens

/-!
# Scripts by their outlines

Two scripts with the same outline are the same up to their marks, and drawing one outline after
the other gives what drawing each from the start gives (`Script.outline_faithful`).

An outline is a list of entries, each with its depth and what the line of a node says of the node
itself (`Label`). A line ends at the next newline, because no line holds one, and starts with two
blanks for each level, because no label starts with one; so the text tells the entries. A name
ends in front of the first bracket, colon, comma or blank, so an entry tells its label. A node has
below it all entries that follow up to the first one that is no deeper, so the entries tell the
trees.
-/

namespace Scoreboard

/-! ## Ends of words -/

/-- A list that does not go on with something of a kind. -/
def Stops {α : Type} (p : α → Prop) (rest : List α) : Prop := ∀ x ∈ rest.head?, ¬p x

theorem stops_cons {α : Type} {p : α → Prop} {x : α} (h : ¬p x) (rest : List α) :
    Stops p (x :: rest) := by
  intro y hy
  obtain rfl : x = y := Option.some.inj hy
  exact h

/-- Where two lists stop to be of a kind, they can be cut apart. -/
theorem append_inj_of_stops {α : Type} {p : α → Prop} {xs ys rest rest' : List α}
    (hxs : ∀ x ∈ xs, p x) (hys : ∀ y ∈ ys, p y) (hrest : Stops p rest) (hrest' : Stops p rest')
    (h : xs ++ rest = ys ++ rest') : xs = ys ∧ rest = rest' := by
  induction xs generalizing ys with
  | nil =>
    cases ys with
    | nil => exact ⟨rfl, h⟩
    | cons y ys =>
      rw [List.nil_append, List.cons_append] at h
      exact absurd (hys y List.mem_cons_self) (hrest y (by rw [h]; rfl))
  | cons x xs ih =>
    cases ys with
    | nil =>
      rw [List.nil_append, List.cons_append] at h
      exact absurd (hxs x List.mem_cons_self) (hrest' x (by rw [← h]; rfl))
    | cons y ys =>
      obtain ⟨rfl, hmore⟩ := List.cons.inj h
      obtain ⟨rfl, hsame⟩ := ih (List.forall_mem_cons.1 hxs).2 (List.forall_mem_cons.1 hys).2 hmore
      exact ⟨rfl, hsame⟩

/-! ## Labels -/

/-- What the line of a node says of it: everything but its children and marks. Variables with
and without a value have the same label. -/
inductive Label where
  | declared (name : String) (type : Option String)
  | assign (name : String)
  | function (name : String) (parameters : List (String × String)) (result : Option String)
  | call (name : String)
  | raw (text : String)
  | binary (op : Operator)
  | integer (value : Int)
  | string (value : String)
  | access (name : String)

namespace Label

/-- The node with a label and children, without marks. -/
def build : Label → List (Node Unit) → Node Unit
  | declared name type, value :: _ => .define name type value ()
  | declared name type, [] => .declare name type ()
  | assign name, value :: _ => .assign name value ()
  | function name parameters result, body =>
    .function name (parameters.map fun p => ⟨p.1, p.2, ()⟩) result body ()
  | call name, arguments => .call name arguments ()
  | raw text, _ => .raw text ()
  | binary op, left :: right :: _ => .binary op left right ()
  | integer value, _ => .integer value ()
  | string value, _ => .string value ()
  | access name, _ => .access name ()
  | _, _ => default

/-- What a line starts with. -/
def title : Label → String
  | declared _ _ => "VariableDeclaration"
  | assign _ => "VariableAssign"
  | function _ _ _ => "FunctionDeclaration"
  | call _ => "FunctionCall"
  | raw _ => "RawCode"
  | binary op => op.title
  | integer _ => "IntegerLiteral"
  | string _ => "StringLiteral"
  | access _ => "VariableAccess"

/-- A parameter with its type. -/
def parameterChars (p : String × String) : List Char := p.1.toList ++ ':' :: ' ' :: p.2.toList

/-- The parameters of a function. -/
def parametersChars (parameters : List (String × String)) : List Char :=
  [',', ' '].intercalate (parameters.map parameterChars)

/-- A type after its colon. -/
def typeChars (type : Option String) : List Char := (Node.typeSuffix type).toList

/-- What a line has in brackets. -/
def details : Label → List Char
  | declared name type => '(' :: (name.toList ++ (typeChars type ++ [')']))
  | assign name => '(' :: (name.toList ++ [')'])
  | function name parameters result =>
    '(' :: (name.toList
      ++ '(' :: (parametersChars parameters ++ ')' :: (typeChars result ++ [')'])))
  | call name => '(' :: (name.toList ++ [')'])
  | raw text => '(' :: ((Text.quoted text).toList ++ [')'])
  | binary _ => []
  | integer value => '(' :: ((toString value).toList ++ [')'])
  | string value => '(' :: ((Text.quoted value).toList ++ [')'])
  | access name => '(' :: (name.toList ++ [')'])

/-- The line of a label. -/
def chars (label : Label) : List Char := label.title.toList ++ label.details

end Label

namespace Node

variable {α : Type}

/-- The label of a node. -/
def label : Node α → Label
  | declare name type _ => .declared name type
  | define name type _ _ => .declared name type
  | assign name _ _ => .assign name
  | function name parameters result _ _ =>
    .function name (parameters.map fun p => (p.name, p.type)) result
  | call name _ _ => .call name
  | raw text _ => .raw text
  | binary op _ _ _ => .binary op
  | integer value _ => .integer value
  | string value _ => .string value
  | access name _ => .access name

/-- A node is known by its label and its children. -/
theorem build_label (node : Node α) :
    node.label.build (node.children.map erase) = node.erase := by
  cases node with
  | function name parameters result body m =>
    rw [erase_function, label, Label.build, List.map_map]
    rfl
  | call name arguments m =>
    rw [erase_call]
    rfl
  | _ => rfl

theorem label_erase (node : Node α) : node.erase.label = node.label := by
  cases node with
  | function name parameters result body m =>
    rw [erase_function, label, label, List.map_map]
    rfl
  | call name arguments m =>
    rw [erase_call]
    rfl
  | _ => rfl

theorem toList_titled (title inner : String) :
    (titled title inner).toList = title.toList ++ '(' :: (inner.toList ++ [')']) := by
  unfold titled
  rw [String.toList_append, String.toList_append, String.toList_append, List.append_assoc,
    List.append_assoc]
  rfl

theorem toList_headline (node : Node α) : node.headline.toList = node.label.chars := by
  cases node with
  | declare name type m =>
    rw [headline, toList_titled, String.toList_append, List.append_assoc]
    rfl
  | define name type value m =>
    rw [headline, toList_titled, String.toList_append, List.append_assoc]
    rfl
  | function name parameters result body m =>
    have hparameters : (", ".intercalate (parameters.map fun p => p.name ++ ": " ++ p.type)).toList
        = Label.parametersChars (parameters.map fun p => (p.name, p.type)) := by
      rw [String.toList_intercalate, Label.parametersChars, List.map_map, List.map_map]
      congr 1
      refine List.map_congr_left fun p _ => ?_
      show (p.name ++ ": " ++ p.type).toList = _
      rw [String.toList_append, String.toList_append, List.append_assoc]
      rfl
    rw [headline, toList_titled, String.toList_append, toList_titled, hparameters,
      List.append_assoc, List.append_assoc, List.cons_append, List.append_assoc]
    rfl
  | binary op left right m => exact (List.append_nil _).symm
  | assign name value m => exact toList_titled "VariableAssign" name
  | call name arguments m => exact toList_titled "FunctionCall" name
  | raw text m => exact toList_titled "RawCode" (Text.quoted text)
  | integer value m => exact toList_titled "IntegerLiteral" (toString value)
  | string value m => exact toList_titled "StringLiteral" (Text.quoted value)
  | access name m => exact toList_titled "VariableAccess" name

end Node

/-! ## Labels by their lines -/

/-- A character of a word. -/
def InWord (c : Char) : Prop := Text.continuesName c = true

/-- A word that goes on like a name everywhere. -/
def IsWord (word : String) : Prop := word.toList ≠ [] ∧ ∀ c ∈ word.toList, InWord c

theorem isWord_of_isName {name : String} (h : isName name = true) : IsWord name := by
  unfold isName at h
  rw [Bool.and_eq_true_iff] at h
  unfold IsWord
  cases hlist : name.toList with
  | nil =>
    rw [hlist] at h
    exact absurd h.1 (by decide)
  | cons c rest =>
    rw [hlist] at h
    obtain ⟨hc, hrest⟩ := Bool.and_eq_true_iff.1 h.1
    have hfirst : InWord c := by
      unfold Text.startsName at hc
      unfold InWord Text.continuesName
      rw [Bool.or_eq_true] at hc ⊢
      rw [Bool.or_eq_true]
      exact hc.imp_left .inl
    exact ⟨List.cons_ne_nil c rest, List.forall_mem_cons.2 ⟨hfirst, List.all_eq_true.1 hrest⟩⟩

/-- The characters that end words. -/
theorem not_inWord : ∀ c ∈ ['(', ')', ':', ',', ' ', '\n'], ¬InWord c := by
  unfold InWord
  simp only [List.forall_mem_cons]
  refine ⟨?_, ?_, ?_, ?_, ?_, ?_, List.forall_mem_nil _⟩ <;> decide

section
variable {word word' : String} {c c' : Char} {rest rest' : List Char}

/-- Words in front of something that ends them. -/
theorem IsWord.append_inj (h : IsWord word) (h' : IsWord word')
    (hc : ¬InWord c) (hc' : ¬InWord c')
    (heq : word.toList ++ c :: rest = word'.toList ++ c' :: rest') :
    word = word' ∧ c :: rest = c' :: rest' := by
  obtain ⟨hword, hrest⟩ := append_inj_of_stops h.2 h'.2 (stops_cons hc rest) (stops_cons hc' rest')
    heq
  exact ⟨String.toList_inj.1 hword, hrest⟩

/-- A word does not start with something that ends words. -/
theorem IsWord.append_ne (h : IsWord word) (hc : ¬InWord c) :
    c :: rest ≠ word.toList ++ rest' := by
  obtain ⟨first, more, hword⟩ := List.exists_cons_of_ne_nil h.1
  intro heq
  rw [hword] at heq
  apply hc
  rw [(List.cons.inj heq).1]
  exact h.2 first (by rw [hword]; exact List.mem_cons_self)

end

namespace Label

variable {rest rest' : List Char}

theorem typeChars_some (type : String) : typeChars (some type) = ':' :: ' ' :: type.toList :=
  String.toList_append

theorem typeChars_inj {type type' : Option String} (h : ∀ t ∈ type, IsWord t)
    (h' : ∀ t ∈ type', IsWord t)
    (heq : typeChars type ++ ')' :: rest = typeChars type' ++ ')' :: rest') :
    type = type' ∧ rest = rest' := by
  cases type with
  | none =>
    cases type' with
    | none => exact ⟨rfl, (List.cons.inj heq).2⟩
    | some t' =>
      rw [typeChars_some] at heq
      exact absurd (List.cons.inj heq).1 (by decide)
  | some t =>
    rw [typeChars_some] at heq
    cases type' with
    | none => exact absurd (List.cons.inj heq).1 (by decide)
    | some t' =>
      rw [typeChars_some] at heq
      have hwords := (List.cons.inj (List.cons.inj heq).2).2
      obtain ⟨rfl, hrest⟩ := (h t rfl).append_inj (h' t' rfl) (not_inWord _ (by decide))
        (not_inWord _ (by decide)) hwords
      exact ⟨rfl, (List.cons.inj hrest).2⟩

/-- A type or the bracket behind it ends a word. -/
theorem exists_typeChars (type : Option String) :
    ∃ c more, typeChars type ++ ')' :: rest = c :: more ∧ ¬InWord c := by
  cases type with
  | none => exact ⟨_, _, rfl, not_inWord _ (by decide)⟩
  | some t =>
    rw [typeChars_some]
    exact ⟨_, _, rfl, not_inWord _ (by decide)⟩

/-- Parameters are spelled by words. -/
def WordedParameters (parameters : List (String × String)) : Prop :=
  ∀ p ∈ parameters, IsWord p.1 ∧ IsWord p.2

/-- What follows a parameter. -/
def parametersTail (parameters : List (String × String)) (rest : List Char) : List Char :=
  if parameters = [] then ')' :: rest
  else ',' :: ' ' :: (parametersChars parameters ++ ')' :: rest)

theorem parametersChars_cons (p : String × String) (parameters : List (String × String)) :
    parametersChars (p :: parameters) ++ ')' :: rest
      = p.1.toList ++ ':' :: ' ' :: (p.2.toList ++ parametersTail parameters rest) := by
  unfold parametersChars parametersTail
  cases parameters with
  | nil =>
    rw [List.map_singleton, List.intercalate_singleton, if_pos rfl, parameterChars,
      List.append_assoc]
    rfl
  | cons q parameters =>
    rw [List.map_cons, List.map_cons, List.intercalate_cons_cons, if_neg (List.cons_ne_nil _ _),
      parameterChars, ← List.map_cons]
    simp only [List.append_assoc, List.cons_append, List.nil_append]
    rfl

/-- So does what follows a parameter. -/
theorem exists_parametersTail (parameters : List (String × String)) :
    ∃ c more, parametersTail parameters rest = c :: more ∧ ¬InWord c := by
  unfold parametersTail
  split
  · exact ⟨_, _, rfl, not_inWord _ (by decide)⟩
  · exact ⟨_, _, rfl, not_inWord _ (by decide)⟩

theorem parametersChars_inj {ps qs : List (String × String)} (hps : WordedParameters ps)
    (hqs : WordedParameters qs)
    (heq : parametersChars ps ++ ')' :: rest = parametersChars qs ++ ')' :: rest') :
    ps = qs ∧ rest = rest' := by
  have hclosing : ¬InWord ')' := not_inWord _ (by decide)
  have hcolon : ¬InWord ':' := not_inWord _ (by decide)
  induction ps generalizing qs with
  | nil =>
    cases qs with
    | nil => exact ⟨rfl, (List.cons.inj heq).2⟩
    | cons q qs =>
      rw [parametersChars_cons] at heq
      exact ((hqs q List.mem_cons_self).1.append_ne hclosing heq).elim
  | cons p ps ih =>
    obtain ⟨⟨hname, htype⟩, hmore⟩ := List.forall_mem_cons.1 hps
    rw [parametersChars_cons] at heq
    cases qs with
    | nil => exact (hname.append_ne hclosing heq.symm).elim
    | cons q qs =>
      obtain ⟨⟨hname', htype'⟩, hmore'⟩ := List.forall_mem_cons.1 hqs
      rw [parametersChars_cons] at heq
      obtain ⟨hfirst, hcolons⟩ := hname.append_inj hname' hcolon hcolon heq
      have htypes := (List.cons.inj (List.cons.inj hcolons).2).2
      -- the tail tells whether there is another parameter
      obtain ⟨c, more, hc, hstop⟩ := @exists_parametersTail rest ps
      obtain ⟨c', more', hc', hstop'⟩ := @exists_parametersTail rest' qs
      rw [hc, hc'] at htypes
      obtain ⟨hsecond, htail⟩ := htype.append_inj htype' hstop hstop' htypes
      rw [← hc, ← hc'] at htail
      obtain rfl : p = q := Prod.ext hfirst hsecond
      unfold parametersTail at htail
      by_cases hend : ps = []
      · by_cases hend' : qs = []
        · rw [if_pos hend, if_pos hend'] at htail
          rw [hend, hend']
          exact ⟨rfl, (List.cons.inj htail).2⟩
        · rw [if_pos hend, if_neg hend'] at htail
          exact absurd (List.cons.inj htail).1 (by decide)
      · by_cases hend' : qs = []
        · rw [if_neg hend, if_pos hend'] at htail
          exact absurd (List.cons.inj htail).1 (by decide)
        · rw [if_neg hend, if_neg hend'] at htail
          obtain ⟨rfl, hrest⟩ := ih hmore hmore' (List.cons.inj (List.cons.inj htail).2).2
          exact ⟨rfl, hrest⟩

/-- The names and types of a label are words. -/
def Worded : Label → Prop
  | declared name type => IsWord name ∧ ∀ t ∈ type, IsWord t
  | assign name => IsWord name
  | function name parameters result =>
    IsWord name ∧ WordedParameters parameters ∧ ∀ t ∈ result, IsWord t
  | call name => IsWord name
  | access name => IsWord name
  | _ => True

/-- All titles. -/
def titles : List String :=
  ["VariableDeclaration", "VariableAssign", "FunctionDeclaration", "FunctionCall", "RawCode",
    "Addition", "Subtraction", "Multiplication", "Division", "IntegerLiteral", "StringLiteral",
    "VariableAccess"]

theorem title_mem_titles (label : Label) : label.title ∈ titles := by
  cases label with
  | binary op => cases op <;> simp [title, titles, Operator.title]
  | _ => simp [title, titles]

/-- A title is made of letters. -/
theorem isAlpha_title (label : Label) : ∀ c ∈ label.title.toList, c.isAlpha = true := by
  have hall : ∀ t ∈ titles, t.toList.all Char.isAlpha = true := by decide +kernel
  exact List.all_eq_true.1 (hall _ label.title_mem_titles)

/-- Behind the title is an opening bracket, if anything. -/
theorem stops_details (label : Label) : Stops (fun c => c.isAlpha = true) label.details := by
  cases label with
  | binary op => exact fun _ h => (by cases h)
  | _ => exact stops_cons (by decide) _

theorem title_operator_inj {op op' : Operator} (h : op.title = op'.title) : op = op' := by
  revert h
  cases op <;> cases op' <;> decide

theorem word_inj {name name' : String} (h : IsWord name) (h' : IsWord name')
    (heq : '(' :: (name.toList ++ [')']) = '(' :: (name'.toList ++ [')'])) : name = name' := by
  have hclosing : ¬InWord ')' := not_inWord _ (by decide)
  exact (h.append_inj h' hclosing hclosing (List.cons.inj heq).2).1

theorem quoted_inj {text text' : String} (heq : '(' :: ((Text.quoted text).toList ++ [')'])
    = '(' :: ((Text.quoted text').toList ++ [')'])) : text = text' :=
  Text.ofString_injective (Text.quoted_append_inj (List.cons.inj heq).2).1

/-- A label is known by its line. -/
theorem eq_of_chars {l l' : Label} (h : l.Worded) (h' : l'.Worded) (heq : l.chars = l'.chars) :
    l = l' := by
  obtain ⟨htitle, hdetails⟩ := append_inj_of_stops l.isAlpha_title l'.isAlpha_title
    l.stops_details l'.stops_details heq
  rw [String.toList_inj] at htitle
  -- the title tells the kind of the label, and only operators have nothing in brackets
  cases l with
  | declared name type =>
    cases l' with
    | declared name' type' =>
      have hinner := (List.cons.inj hdetails).2
      obtain ⟨c, more, hc, hstop⟩ := @exists_typeChars [] type
      obtain ⟨c', more', hc', hstop'⟩ := @exists_typeChars [] type'
      rw [hc, hc'] at hinner
      obtain ⟨rfl, htypes⟩ := h.1.append_inj h'.1 hstop hstop' hinner
      rw [← hc, ← hc'] at htypes
      rw [(typeChars_inj h.2 h'.2 htypes).1]
    | binary op' => cases hdetails
    | _ => simp [title] at htitle
  | assign name =>
    cases l' with
    | assign name' => rw [word_inj h h' hdetails]
    | binary op' => cases hdetails
    | _ => simp [title] at htitle
  | function name parameters result =>
    cases l' with
    | function name' parameters' result' =>
      have hopening : ¬InWord '(' := not_inWord _ (by decide)
      obtain ⟨rfl, hbracket⟩ := h.1.append_inj h'.1 hopening hopening (List.cons.inj hdetails).2
      obtain ⟨rfl, htypes⟩ := parametersChars_inj h.2.1 h'.2.1 (List.cons.inj hbracket).2
      rw [(typeChars_inj h.2.2 h'.2.2 htypes).1]
    | binary op' => cases hdetails
    | _ => simp [title] at htitle
  | call name =>
    cases l' with
    | call name' => rw [word_inj h h' hdetails]
    | binary op' => cases hdetails
    | _ => simp [title] at htitle
  | raw text =>
    cases l' with
    | raw text' => rw [quoted_inj hdetails]
    | binary op' => cases hdetails
    | _ => simp [title] at htitle
  | binary op =>
    cases l' with
    | binary op' => rw [title_operator_inj htitle]
    | _ => cases hdetails
  | integer value =>
    cases l' with
    | integer value' =>
      have hdigits := List.append_cancel_right (List.cons.inj hdetails).2
      rw [String.toList_inj, Int.toString_eq_repr, Int.toString_eq_repr] at hdigits
      rw [Int.repr_injective hdigits]
    | binary op' => cases hdetails
    | _ => simp [title] at htitle
  | string value =>
    cases l' with
    | string value' => rw [quoted_inj hdetails]
    | binary op' => cases hdetails
    | _ => simp [title] at htitle
  | access name =>
    cases l' with
    | access name' => rw [word_inj h h' hdetails]
    | binary op' => cases hdetails
    | _ => simp [title] at htitle

/-! ## Lines -/

theorem newline_notMem_word {word : String} (h : IsWord word) : '\n' ∉ word.toList := fun hmem =>
  not_inWord '\n' (by decide) (h.2 '\n' hmem)

theorem newline_notMem_typeChars {type : Option String} (h : ∀ t ∈ type, IsWord t) :
    '\n' ∉ typeChars type := by
  cases type with
  | none => exact List.not_mem_nil
  | some t =>
    rw [typeChars_some]
    simpa using newline_notMem_word (h t rfl)

theorem newline_notMem_parametersChars {parameters : List (String × String)}
    (h : WordedParameters parameters) : '\n' ∉ parametersChars parameters := by
  refine Text.notMem_intercalate (by decide) fun part hpart => ?_
  obtain ⟨p, hp, rfl⟩ := List.mem_map.1 hpart
  obtain ⟨hname, htype⟩ := h p hp
  simp [parameterChars, newline_notMem_word hname, newline_notMem_word htype]

/-- A line holds no newline. -/
theorem newline_notMem_chars {label : Label} (h : label.Worded) : '\n' ∉ label.chars := by
  have htitle : '\n' ∉ label.title.toList := fun hmem =>
    absurd (label.isAlpha_title '\n' hmem) (by decide)
  have hdetails : '\n' ∉ label.details := by
    cases label with
    | declared name type =>
      simp [details, newline_notMem_word h.1, newline_notMem_typeChars h.2]
    | function name parameters result =>
      simp [details, newline_notMem_word h.1, newline_notMem_parametersChars h.2.1,
        newline_notMem_typeChars h.2.2]
    | raw text => simp [details, Text.newline_notMem_quoted]
    | string value => simp [details, Text.newline_notMem_quoted]
    | integer value =>
      obtain ⟨digits, hvalue, -, hdigits, -⟩ := canonicalDecimal_toString value
      have hdigit : '\n' ∉ digits := fun hmem => absurd (hdigits '\n' hmem) (by decide)
      have hsign : '\n' ∉ if value < 0 then ['-'] else [] := by
        split <;> decide
      rw [details, hvalue]
      simp only [List.mem_cons, List.mem_append, List.not_mem_nil, or_false, hdigit, hsign,
        false_or]
      decide
    | binary op => exact List.not_mem_nil
    | assign name => simp [details, newline_notMem_word h]
    | call name => simp [details, newline_notMem_word h]
    | access name => simp [details, newline_notMem_word h]
  rw [chars, List.mem_append, not_or]
  exact ⟨htitle, hdetails⟩

end Label

/-- The line of an entry, behind its newline: two blanks for each level, and the label. -/
def entryChars (entry : Nat × Label) : List Char :=
  '\n' :: (List.replicate (2 * entry.1) ' ' ++ entry.2.chars)

/-- A label does not start with a blank. -/
theorem Label.stops_chars (label : Label) : Stops (· = ' ') label.chars := by
  have hne : label.title.toList ≠ [] := by
    have hall : ∀ t ∈ Label.titles, t.toList ≠ [] := by decide
    exact hall _ label.title_mem_titles
  obtain ⟨c, more, hc⟩ := List.exists_cons_of_ne_nil hne
  have halpha := label.isAlpha_title c (by rw [hc]; exact List.mem_cons_self)
  unfold Label.chars
  rw [hc]
  refine stops_cons ?_ _
  rintro rfl
  exact absurd halpha (by decide)

/-- An entry is known by its line. -/
theorem eq_of_entryChars {entry entry' : Nat × Label} {rest rest' : List Char}
    (h : entry.2.Worded) (h' : entry'.2.Worded) (hrest : Stops (· ≠ '\n') rest)
    (hrest' : Stops (· ≠ '\n') rest')
    (heq : entryChars entry ++ rest = entryChars entry' ++ rest') :
    entry = entry' ∧ rest = rest' := by
  have hline : ∀ e : Nat × Label, e.2.Worded →
      ∀ c ∈ List.replicate (2 * e.1) ' ' ++ e.2.chars, c ≠ '\n' := by
    intro e he c hc hnewline
    subst hnewline
    obtain hmem | hmem := List.mem_append.1 hc
    · exact absurd (List.eq_of_mem_replicate hmem) (by decide)
    · exact Label.newline_notMem_chars he hmem
  have hblanks : ∀ n, ∀ c ∈ List.replicate n ' ', c = ' ' := fun n c => List.eq_of_mem_replicate
  obtain ⟨hlines, hsame⟩ := append_inj_of_stops (hline entry h) (hline entry' h') hrest hrest'
    (List.cons.inj heq).2
  obtain ⟨hdepth, hlabel⟩ := append_inj_of_stops (hblanks _) (hblanks _) entry.2.stops_chars
    entry'.2.stops_chars hlines
  have hlength := congrArg List.length hdepth
  rw [List.length_replicate, List.length_replicate] at hlength
  exact ⟨Prod.ext (by omega) (Label.eq_of_chars h h' hlabel), hsame⟩

/-- Entries are known by their lines. -/
theorem eq_of_flatMap_entryChars {entries entries' : List (Nat × Label)}
    (h : ∀ entry ∈ entries, entry.2.Worded) (h' : ∀ entry ∈ entries', entry.2.Worded)
    (heq : entries.flatMap entryChars = entries'.flatMap entryChars) : entries = entries' := by
  have hstops : ∀ more : List (Nat × Label), Stops (· ≠ '\n') (more.flatMap entryChars) := by
    intro more
    cases more with
    | nil => exact fun _ hc => (by cases hc)
    | cons entry more => exact stops_cons (by simp) _
  induction entries generalizing entries' with
  | nil =>
    cases entries' with
    | nil => rfl
    | cons entry' entries' => cases heq
  | cons entry entries ih =>
    cases entries' with
    | nil => cases heq
    | cons entry' entries' =>
      obtain ⟨hentry, hmore⟩ := List.forall_mem_cons.1 h
      obtain ⟨hentry', hmore'⟩ := List.forall_mem_cons.1 h'
      rw [List.flatMap_cons, List.flatMap_cons] at heq
      obtain ⟨rfl, hrest⟩ := eq_of_entryChars hentry hentry' (hstops _) (hstops _) heq
      rw [ih hmore hmore' hrest]

/-! ## Trees by their entries -/

namespace Node

variable {α β : Type}

/-- The entries of a tree: the node, and below it those of its children. -/
def entries (depth : Nat) (node : Node α) : List (Nat × Label) :=
  (depth, node.label) :: node.children.attach.flatMap fun child => child.1.entries (depth + 1)
termination_by sizeOf node
decreasing_by exact sizeOf_child_lt child.2

theorem entries_eq (depth : Nat) (node : Node α) :
    node.entries depth = (depth, node.label) :: node.children.flatMap (entries (depth + 1)) := by
  rw [entries, List.flatMap_subtype (g := entries (depth + 1)) (fun _ _ => rfl),
    List.unattach_attach]

/-- Entries that are not below those of a depth. -/
def Returns (depth : Nat) (rest : List (Nat × Label)) : Prop :=
  Stops (fun entry => depth < entry.1) rest

/-- What follows a tree is no deeper than the tree itself. -/
theorem returns_flatMap {depth : Nat} (nodes : List (Node α)) {rest : List (Nat × Label)}
    (h : Stops (fun entry => depth ≤ entry.1) rest) :
    Returns depth (nodes.flatMap (entries depth) ++ rest) := by
  cases nodes with
  | nil => exact fun entry hentry hlt => h entry hentry hlt.le
  | cons node nodes =>
    rw [List.flatMap_cons, entries_eq]
    exact @stops_cons _ (fun entry => depth < entry.1) (depth, node.label) (Nat.lt_irrefl depth) _

/-- Lists of trees are known by their entries, if each of their trees is. -/
theorem flatMap_entries_inj {depth : Nat} {xs : List (Node α)} {ys : List (Node β)}
    {rest rest' : List (Nat × Label)}
    (hxs : ∀ x ∈ xs, ∀ (y : Node β) (more more' : List (Nat × Label)), Returns depth more →
      Returns depth more' → x.entries depth ++ more = y.entries depth ++ more' →
        x.erase = y.erase ∧ more = more')
    (hrest : Stops (fun entry => depth ≤ entry.1) rest)
    (hrest' : Stops (fun entry => depth ≤ entry.1) rest')
    (heq : xs.flatMap (entries depth) ++ rest = ys.flatMap (entries depth) ++ rest') :
    xs.map erase = ys.map erase ∧ rest = rest' := by
  induction xs generalizing ys with
  | nil =>
    cases ys with
    | nil => exact ⟨rfl, heq⟩
    | cons y ys =>
      rw [List.flatMap_nil, List.nil_append, List.flatMap_cons, entries_eq] at heq
      exact absurd le_rfl (hrest (depth, y.label) (by rw [heq]; rfl))
  | cons x xs ih =>
    cases ys with
    | nil =>
      rw [List.flatMap_nil, List.nil_append, List.flatMap_cons, entries_eq] at heq
      exact absurd le_rfl (hrest' (depth, x.label) (by rw [← heq]; rfl))
    | cons y ys =>
      obtain ⟨hx, hxs⟩ := List.forall_mem_cons.1 hxs
      rw [List.flatMap_cons, List.flatMap_cons, List.append_assoc, List.append_assoc] at heq
      obtain ⟨hnode, hmore⟩ := hx y _ _ (returns_flatMap xs hrest) (returns_flatMap ys hrest') heq
      obtain ⟨hnodes, hsame⟩ := ih hxs hmore
      exact ⟨by rw [List.map_cons, List.map_cons, hnode, hnodes], hsame⟩

/-- A tree is known by its entries, whatever follows that is no deeper. -/
theorem entries_inj (x : Node α) {depth : Nat} (y : Node β) (more more' : List (Nat × Label))
    (hmore : Returns depth more) (hmore' : Returns depth more')
    (heq : x.entries depth ++ more = y.entries depth ++ more') :
    x.erase = y.erase ∧ more = more' := by
  induction x using Node.induction generalizing depth y more more' with
  | step x ih =>
    rw [entries_eq, entries_eq] at heq
    obtain ⟨hlabel, hchildren⟩ := List.cons.inj heq
    obtain ⟨hchildren, hsame⟩ := flatMap_entries_inj
      (fun child hchild y more more' => ih child hchild y more more') hmore hmore' hchildren
    rw [← build_label x, ← build_label y, (Prod.mk.inj hlabel).2, hchildren]
    exact ⟨rfl, hsame⟩

/-- Marks do not count. -/
theorem entries_erase (depth : Nat) (node : Node α) :
    node.erase.entries depth = node.entries depth := by
  induction node using Node.induction generalizing depth with
  | step node ih =>
    rw [entries_eq, entries_eq, label_erase, children_erase, List.flatMap_map]
    exact congrArg _ (List.flatMap_congr fun child hchild => ih child hchild (depth + 1))

/-- The entries of a tree are those of the nodes in it. -/
theorem mem_entries {depth : Nat} {node : Node α} {entry : Nat × Label}
    (h : entry ∈ node.entries depth) : ∃ x ∈ node.tree, entry.2 = x.label := by
  induction node using Node.induction generalizing depth with
  | step node ih =>
    rw [entries_eq] at h
    obtain rfl | hmem := List.mem_cons.1 h
    · exact ⟨node, self_mem_tree node, rfl⟩
    · obtain ⟨child, hchild, hentry⟩ := List.mem_flatMap.1 hmem
      obtain ⟨x, hx, hlabel⟩ := ih child hchild hentry
      exact ⟨x, mem_tree_of_child hchild hx, hlabel⟩

end Node

/-! ## Drawing -/

namespace Outliner

/-- Texts behind newlines. -/
def belowChars (texts : List String) : List Char := texts.flatMap fun text => '\n' :: text.toList

theorem toList_above (head : String) (texts : List String) :
    (above head texts).toList = head.toList ++ belowChars texts := by
  have hnewline : ∀ text : String, ("\n" ++ text).toList = '\n' :: text.toList := fun text =>
    String.toList_append
  rw [above, String.toList_append, String.toList_join, List.flatMap_map, belowChars]
  simp only [hnewline]

theorem toList_intercalate_cons (head : String) (texts : List String) :
    ("\n".intercalate (head :: texts)).toList = head.toList ++ belowChars texts := by
  rw [String.toList_intercalate, List.map_cons]
  induction texts generalizing head with
  | nil =>
    rw [List.map_nil, List.intercalate_singleton, belowChars, List.flatMap_nil, List.append_nil]
  | cons text texts ih =>
    rw [List.map_cons, List.intercalate_cons_cons, ih, List.append_assoc]
    rfl

end Outliner

namespace Node

open Outliner

variable {α : Type}

/-- Every node is drawn by its line and its children. -/
theorem draw_run (node : Node α) (depth : Nat) :
    node.draw.run depth
      = (above (indentation depth ++ node.headline) ((drawAll node.children).run (depth + 1)).1,
          ((drawAll node.children).run (depth + 1)).2 - 1) := by
  have hleaf : ∀ head : String, (head, depth) = (above head [], depth + 1 - 1) := by
    intro head
    rw [above, List.map_nil, String.join_nil, String.append_empty]
    rfl
  cases node with
  | declare name type m => exact hleaf _
  | raw text m => exact hleaf _
  | integer value m => exact hleaf _
  | string value m => exact hleaf _
  | access name m => exact hleaf _
  | _ => rfl

theorem drawAll_run_cons (node : Node α) (rest : List (Node α)) (depth : Nat) :
    (drawAll (node :: rest)).run depth
      = ((node.draw.run depth).1 :: ((drawAll rest).run (node.draw.run depth).2).1,
          ((drawAll rest).run (node.draw.run depth).2).2) := rfl

/-- Trees are drawn one below the other if each is drawn by its entries. -/
theorem drawAll_draws {nodes : List (Node α)} {depth : Nat}
    (h : ∀ node ∈ nodes, (node.draw.run depth).2 = depth
      ∧ '\n' :: (node.draw.run depth).1.toList = (node.entries depth).flatMap entryChars) :
    ((drawAll nodes).run depth).2 = depth
      ∧ belowChars ((drawAll nodes).run depth).1
        = (nodes.flatMap (entries depth)).flatMap entryChars := by
  induction nodes with
  | nil => exact ⟨rfl, rfl⟩
  | cons node rest ih =>
    obtain ⟨⟨hdepth, htext⟩, hrest⟩ := List.forall_mem_cons.1 h
    obtain ⟨hdepth', htexts⟩ := ih hrest
    rw [drawAll_run_cons, hdepth, List.flatMap_cons, List.flatMap_append, ← htext, ← htexts]
    exact ⟨hdepth', rfl⟩

/-- A tree is drawn by its entries, and the depth comes back. -/
theorem draw_draws (node : Node α) (depth : Nat) :
    (node.draw.run depth).2 = depth
      ∧ '\n' :: (node.draw.run depth).1.toList = (node.entries depth).flatMap entryChars := by
  induction node using Node.induction generalizing depth with
  | step node ih =>
    obtain ⟨hdepth, htexts⟩ := drawAll_draws fun child hchild => ih child hchild (depth + 1)
    have hline : (indentation depth ++ node.headline).toList
        = List.replicate (2 * depth) ' ' ++ node.label.chars := by
      rw [String.toList_append, toList_headline, indentation, String.toList_ofList]
    rw [draw_run, hdepth, toList_above, htexts, hline, entries_eq, List.flatMap_cons]
    exact ⟨rfl, rfl⟩

end Node

namespace Script

open Outliner

variable {α : Type} {script : Script α}

/-- A script is drawn by the entries of its statements, below a line of its own. -/
theorem draw_draws (script : Script α) (depth : Nat) :
    ((draw script).run depth).2 = depth
      ∧ ((draw script).run depth).1.toList
        = "Program".toList ++ (script.flatMap (Node.entries (depth + 1))).flatMap entryChars := by
  obtain ⟨hdepth, htexts⟩ := Node.drawAll_draws
    fun node (_ : node ∈ script) => node.draw_draws (depth + 1)
  have hrun : (draw script).run depth
      = ("\n".intercalate ("Program" :: ((Node.drawAll script).run (depth + 1)).1),
          ((Node.drawAll script).run (depth + 1)).2 - 1) := rfl
  rw [hrun, hdepth, toList_intercalate_cons, htexts]
  exact ⟨rfl, rfl⟩

end Script

/-- What can be drawn: a tree, or a script. -/
inductive Drawing (α : Type) where
  | tree (node : Node α)
  | script (script : Script α)

namespace Drawing

variable {α : Type}

/-- Draw a tree or a script. -/
def draw : Drawing α → Outliner String
  | tree node => node.draw
  | script s => Script.draw s

/-- The outline of a tree or a script. -/
def outline : Drawing α → String
  | tree node => node.outline
  | script s => Script.outline s

/-- Drawing from the start gives the outline and ends where it started. -/
theorem draw_run (drawing : Drawing α) : drawing.draw.run 0 = (drawing.outline, 0) := by
  cases drawing with
  | tree node => exact Prod.ext rfl (node.draw_draws 0).1
  | script s => exact Prod.ext rfl (Script.draw_draws s 0).1

theorem mapM_draw_run (drawings : List (Drawing α)) :
    (drawings.mapM draw).run 0 = (drawings.map outline, 0) := by
  induction drawings with
  | nil => rfl
  | cons drawing drawings ih =>
    rw [List.mapM_cons, StateT.run_bind, draw_run, List.map_cons]
    show (drawings.mapM draw >>= fun texts => pure (drawing.outline :: texts) :
      Outliner (List String)).run 0 = _
    rw [StateT.run_bind, ih]
    rfl

end Drawing

/-! ## Outlines of scripts that are read -/

/-- The names and types in a script that is read are words. -/
theorem Source.worded_of_parse {source : Source} {script : Script Span}
    (h : source.parse = .ok script) : ∀ x ∈ Node.trees script, x.label.Worded := by
  obtain ⟨tokens, us, htokens, hinfix, hderives⟩ := Source.parse_ok h
  have hword : ∀ name, Spells tokens name → IsWord name := fun name hname =>
    isWord_of_isName (isName_of_spells htokens hname)
  intro x hx
  have hspelled := (hderives.sound x hx).2.mono hinfix
  cases x with
  | declare name type m =>
    obtain ⟨hname, t, rfl, ht⟩ := hspelled
    refine ⟨hword _ hname, ?_⟩
    rintro t' ⟨⟩
    exact hword _ ht
  | define name type value m => exact ⟨hword _ hspelled.1, fun t ht => hword _ (hspelled.2 t ht)⟩
  | assign name value m => exact hword _ hspelled
  | function name parameters result body m =>
    obtain ⟨hname, hresult, hparameters⟩ := hspelled
    refine ⟨hword _ hname, ?_, fun t ht => hword _ (hresult t ht)⟩
    intro q hq
    obtain ⟨p, hp, rfl⟩ := List.mem_map.1 hq
    exact ⟨hword _ (hparameters p hp).1, hword _ (hparameters p hp).2.1⟩
  | call name arguments m => exact hword _ hspelled.1
  | access name m => exact hword _ hspelled
  | _ => trivial

/-- An outline tells the script, up to its marks. -/
theorem Script.outline_eq_iff {a b : Script Span} (ha : ∀ x ∈ Node.trees a, x.label.Worded)
    (hb : ∀ x ∈ Node.trees b, x.label.Worded) :
    outline a = outline b ↔ a.map Node.erase = b.map Node.erase := by
  have hworded : ∀ script : Script Span, (∀ x ∈ Node.trees script, x.label.Worded) →
      ∀ entry ∈ script.flatMap (Node.entries 1), entry.2.Worded := by
    intro script h entry hentry
    obtain ⟨node, hnode, hentry⟩ := List.mem_flatMap.1 hentry
    obtain ⟨x, hx, hlabel⟩ := Node.mem_entries hentry
    rw [hlabel]
    exact h x (Node.mem_trees.2 ⟨node, hnode, hx⟩)
  rw [← String.toList_inj]
  show ((draw a).run 0).1.toList = ((draw b).run 0).1.toList ↔ _
  rw [(draw_draws a 0).2, (draw_draws b 0).2, List.append_cancel_left_eq]
  constructor
  · intro h
    have hentries := eq_of_flatMap_entryChars (hworded a ha) (hworded b hb) h
    have hnil : Stops (fun entry : Nat × Label => 1 ≤ entry.1) [] := fun _ hx => (by cases hx)
    apply (Node.flatMap_entries_inj (fun x _ y more more' => x.entries_inj y more more')
      hnil hnil ?_).1
    rw [List.append_nil, List.append_nil]
    exact hentries
  · intro h
    have herase : ∀ script : Script Span,
        script.flatMap (Node.entries 1) = (script.map Node.erase).flatMap (Node.entries 1) := by
      intro script
      rw [List.flatMap_map]
      exact List.flatMap_congr fun node _ => (node.entries_erase 1).symm
    rw [herase a, herase b, h]

/-- Scripts that are read have the same outline exactly if they are the same up to their marks.
Whatever is drawn one after the other comes out as if each was drawn from the start. -/
theorem Script.outline_faithful {first second : Source} {a b : Script Span}
    (ha : first.parse = .ok a) (hb : second.parse = .ok b) :
    (outline a = outline b ↔ a.map Node.erase = b.map Node.erase)
      ∧ ∀ drawings : List (Drawing Span),
        (drawings.mapM Drawing.draw).run 0 = (drawings.map Drawing.outline, 0) :=
  ⟨outline_eq_iff (Source.worded_of_parse ha) (Source.worded_of_parse hb), Drawing.mapM_draw_run⟩

/-- Two spellings of a script with a quote in a string. -/
theorem Script.outline_faithful_spellings :
    let first : Source := ⟨"first",
      "function f(a: int) \x7b\n raw \"it's\"\n\x7d\nlet x: int = f(1 + -2)".toList⟩
    let second : Source := ⟨"second",
      "\nfunction f ( a:int ) \x7braw \"it's\" \x7d // f\n\nlet x:int=f(1+(-2))".toList⟩
    let text := "Program\n  FunctionDeclaration(f(a: int))\n    RawCode(\"it's\")\n"
      ++ "  VariableDeclaration(x: int)\n    FunctionCall(f)\n      Addition\n"
      ++ "        IntegerLiteral(1)\n        IntegerLiteral(-2)"
    ∃ a b, first.parse = .ok a ∧ second.parse = .ok b ∧ outline a = text ∧ outline b = text
      ∧ a.map Node.erase = b.map Node.erase
      ∧ ([Drawing.script a, .script b].mapM Drawing.draw).run 0 = ([text, text], 0) := by
  have hspellings : ∀ (first second : Source) (text : String),
      first.parse.toOption.any (outline · = text) = true →
      second.parse.toOption.any (outline · = text) = true →
      ∃ a b, first.parse = .ok a ∧ second.parse = .ok b ∧ outline a = text ∧ outline b = text
        ∧ a.map Node.erase = b.map Node.erase
        ∧ ([Drawing.script a, .script b].mapM Drawing.draw).run 0 = ([text, text], 0) := by
    intro first second text hfirst hsecond
    obtain ⟨a, ha, hatext⟩ := exists_ok_of_any hfirst
    obtain ⟨b, hb, hbtext⟩ := exists_ok_of_any hsecond
    obtain ⟨hsame, hdrawings⟩ := Script.outline_faithful ha hb
    rw [decide_eq_true_eq] at hatext hbtext
    refine ⟨a, b, ha, hb, hatext, hbtext, hsame.1 (hatext.trans hbtext.symm), ?_⟩
    rw [hdrawings, List.map_cons, List.map_cons, Drawing.outline, Drawing.outline, hatext, hbtext]
    rfl
  exact hspellings _ _ _ (by decide +kernel) (by decide +kernel)

end Scoreboard
