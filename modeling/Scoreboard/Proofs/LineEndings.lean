import Mathlib
import Scoreboard.Files
import Scoreboard.Proofs.Building
import Scoreboard.Proofs.Independence
import Scoreboard.Proofs.Lexemes
import Scoreboard.Proofs.Quotes
import Scoreboard.Proofs.Tiling

/-!
# Line endings

A text may end its lines with a newline alone or with a carriage return in front of it. To the
scanner the carriage return is a blank, but it may also stand where no blank is looked for: in a
comment, right behind a name, a number or a slash, behind a backslash, or behind a quote that
opens no string. Two texts that differ in this alone (`SameLines`) are walked over side by side,
the first with an additional step at a carriage return between two tokens. As long as no string
has a carriage return in it, both have the same tokens.

So a script can be compiled from memory or from a file, which is read with every line ending
turned into a newline, and the outcome is the same (`line_endings_agree`).
-/

namespace Scoreboard

/-! ## Texts with the same lines -/

/-- The text with each pair of a carriage return and a newline replaced by a newline. -/
def Text.unixNewlines : List Char → List Char
  | [] => []
  | '\r' :: '\n' :: rest => '\n' :: unixNewlines rest
  | c :: rest => c :: unixNewlines rest

/-- Every carriage return stands directly in front of a newline. -/
def Text.PairsReturns (text : List Char) : Prop :=
  ∀ i < text.length, text[i]? = some '\r' → text[i + 1]? = some '\n'

instance (text : List Char) : Decidable (Text.PairsReturns text) :=
  inferInstanceAs (Decidable (∀ i < text.length, text[i]? = some '\r' → text[i + 1]? = some '\n'))

/-- Two texts that differ at most in their line endings: where the second has a newline, the
first may have a carriage return in front of it, and it has no other ones. -/
inductive SameLines : List Char → List Char → Prop
  | nil : SameLines [] []
  | pair {text plain : List Char} (h : SameLines text plain) :
      SameLines ('\r' :: '\n' :: text) ('\n' :: plain)
  | char {c : Char} {text plain : List Char} (hc : c ≠ '\r') (h : SameLines text plain) :
      SameLines (c :: text) (c :: plain)

theorem Text.PairsReturns.tail {c : Char} {text : List Char} (h : PairsReturns (c :: text)) :
    PairsReturns text := by
  intro i hi hreturn
  exact h (i + 1) (Nat.succ_lt_succ hi) hreturn

theorem sameLines_unixNewlines {text : List Char} (h : Text.PairsReturns text) :
    SameLines text (Text.unixNewlines text) := by
  fun_induction Text.unixNewlines text with
  | case1 => exact .nil
  | case2 rest ih => exact .pair (ih h.tail.tail)
  | case3 c rest hpair ih =>
    refine .char ?_ (ih h.tail)
    rintro rfl
    have hnext : rest[0]? = some '\n' := h 0 (Nat.zero_lt_succ _) rfl
    rw [← List.head?_eq_getElem?] at hnext
    obtain ⟨after, rfl⟩ := List.head?_eq_some_iff.1 hnext
    exact hpair after rfl rfl

namespace SameLines

variable {text plain : List Char} {c : Char}

/-- Reading such a text from a file gives the text without carriage returns. -/
theorem normalizeNewlines_eq (h : SameLines text plain) : Text.normalizeNewlines text = plain := by
  induction h with
  | nil => rfl
  | pair _ ih => rw [Text.normalizeNewlines, ih]
  | @char c text plain hc _ ih =>
    rw [Text.normalizeNewlines, ih]
    · exact fun rest heq _ => hc heq
    · exact hc

theorem of_cons (h : SameLines (c :: text) plain) (hc : c ≠ '\r') :
    ∃ rest, plain = c :: rest ∧ SameLines text rest := by
  cases h with
  | pair _ => exact (hc rfl).elim
  | char _ h => exact ⟨_, rfl, h⟩

/-- Characters without a carriage return are the same in both texts. -/
theorem of_append {cs : List Char} (h : SameLines (cs ++ text) plain) (hcs : '\r' ∉ cs) :
    ∃ rest, plain = cs ++ rest ∧ SameLines text rest := by
  induction cs generalizing plain with
  | nil => exact ⟨plain, rfl, h⟩
  | cons c cs ih =>
    rw [List.mem_cons, not_or] at hcs
    obtain ⟨plain, rfl, hplain⟩ := h.of_cons (Ne.symm hcs.1)
    obtain ⟨rest, rfl, hrest⟩ := ih hplain hcs.2
    exact ⟨rest, rfl, hrest⟩

theorem of_cons_right (h : SameLines text (c :: plain)) :
    (∃ rest, text = c :: rest ∧ SameLines rest plain)
      ∨ c = '\n' ∧ ∃ rest, text = '\r' :: '\n' :: rest ∧ SameLines rest plain := by
  cases h with
  | pair h => exact .inr ⟨rfl, _, rfl, h⟩
  | char _ h => exact .inl ⟨_, rfl, h⟩

/-- What holds of the first character of one text and of a newline holds of the first character
of the other. -/
theorem head {p : Char → Prop} (h : SameLines text plain) (hline : p '\n')
    (htext : ∀ c ∈ text.head?, p c) : ∀ c ∈ plain.head?, p c := by
  intro c hc
  cases h with
  | nil => cases hc
  | pair _ =>
    cases hc
    exact hline
  | char _ _ => exact htext c hc

/-- The rest of a line may have a carriage return at its end. -/
theorem dropWhile_line (h : SameLines text plain) :
    SameLines (text.dropWhile (· != '\n')) (plain.dropWhile (· != '\n')) := by
  induction h with
  | nil => exact .nil
  | pair h _ =>
    -- the carriage return belongs to the line and the newline does not
    exact .char (by decide) h
  | @char c text plain hc h ih =>
    by_cases hline : c = '\n'
    · subst hline
      exact .char hc h
    · rw [List.dropWhile_cons_of_pos (by simpa using hline),
        List.dropWhile_cons_of_pos (by simpa using hline)]
      exact ih

theorem endsInteger (h : SameLines text plain) (hends : Scanner.EndsInteger text) :
    Scanner.EndsInteger plain := by
  refine ⟨h.head rfl hends.digit, ?_⟩
  rintro c rest rfl
  rcases h.of_cons_right with ⟨after, rfl, hafter⟩ | ⟨hline, -⟩
  · refine hafter.head (p := fun c => c.isDigit = false) rfl (fun d hd => ?_) c rfl
    obtain ⟨more, rfl⟩ := List.head?_eq_some_iff.1 hd
    exact hends.underscore d more rfl
  · cases hline

/-- A string that is closed in one text is closed in the other. -/
theorem exists_quoted {body value rest : List Char} (hbody : Quoted body value)
    (h : SameLines text (body ++ '"' :: rest)) :
    ∃ body' value' rest', text = body' ++ '"' :: rest' ∧ Quoted body' value' := by
  -- a carriage return of the first text is a plain character, or stays behind its backslash
  induction hbody generalizing text with
  | nil =>
    rcases h.of_cons_right with ⟨after, rfl, -⟩ | ⟨hline, -⟩
    · exact ⟨[], [], after, rfl, .nil⟩
    · cases hline
  | @escaped c body value hc _ ih =>
    rcases h.of_cons_right with ⟨text, rfl, hpair⟩ | ⟨hline, -⟩
    · rcases hpair.of_cons_right with ⟨after, rfl, hafter⟩ | ⟨rfl, -⟩
      · obtain ⟨body', value', rest', rfl, hbody⟩ := ih hafter
        exact ⟨_, _, rest', rfl, .escaped hc hbody⟩
      · exact absurd hc (by decide)
    · cases hline
  | @kept c body value hquote hslash _ ih =>
    rcases h.of_cons_right with ⟨text, rfl, hpair⟩ | ⟨hline, -⟩
    · rcases hpair.of_cons_right with ⟨after, rfl, hafter⟩ | ⟨rfl, after, rfl, hafter⟩
      · obtain ⟨body', value', rest', rfl, hbody⟩ := ih hafter
        exact ⟨_, _, rest', rfl, .kept hquote hslash hbody⟩
      · -- the backslash stands in front of the carriage return
        obtain ⟨body', value', rest', rfl, hbody⟩ := ih hafter
        exact ⟨_, _, rest', rfl, .kept (by decide) (by decide) (.plain hquote hslash hbody)⟩
    · cases hline
  | @plain c body value hquote hslash _ ih =>
    rcases h.of_cons_right with ⟨after, rfl, hafter⟩ | ⟨rfl, after, rfl, hafter⟩
    · obtain ⟨body', value', rest', rfl, hbody⟩ := ih hafter
      exact ⟨_, _, rest', rfl, .plain hquote hslash hbody⟩
    · obtain ⟨body', value', rest', rfl, hbody⟩ := ih hafter
      exact ⟨_, _, rest', rfl, .plain (by decide) (by decide) (.plain hquote hslash hbody)⟩

theorem stringBody_eq_none (h : SameLines text plain) (hnone : Scanner.stringBody text = none) :
    Scanner.stringBody plain = none := by
  rw [Scanner.stringBody_eq_none_iff] at hnone ⊢
  rintro body value rest rfl hbody
  obtain ⟨body', value', rest', htext, hbody'⟩ := exists_quoted hbody h
  exact hnone body' value' rest' htext hbody'

end SameLines

/-! ## Steps side by side -/

namespace Scanner

variable {text plain : List Char} {n : Nat} {kind : TokenKind}

/-- A character that starts no token is illegal, whatever follows it. -/
theorem firstWord_of_startsToken {c : Char} (hgap : isGap c = false)
    (hstart : startsToken c = false) (rest : List Char) :
    firstWord (c :: rest) = some (1, .token .illegal) := by
  unfold startsToken at hstart
  simp only [Bool.or_eq_false_iff] at hstart
  obtain ⟨⟨⟨⟨hline, hsign⟩, hquote⟩, hdigit⟩, hletter⟩ := hstart
  rw [Option.isSome_eq_false_iff, Option.isNone_iff_eq_none] at hsign
  have hslash : (c == '/') = false := by
    refine beq_eq_false_iff_ne.2 ?_
    rintro rfl
    cases hsign
  simp only [firstWord]
  rw [hgap, hline, hslash, hsign, hquote, hdigit, hletter]
  rfl

/-- What stands behind a token does not go on with it. -/
theorem endsToken_drop (h : firstWord text = some (n, .token kind)) :
    EndsToken kind (text.drop n) where
  name hkind _ hc := firstWord_name h hkind hc
  integer value hkind := firstWord_integer (hkind ▸ h)
  divide hkind hslash := by
    subst hkind
    generalize hword : Word.token (.operator .divide) = word at h
    cases takes_of_firstWord h with
    | @sign c rest kind hc hnext =>
      cases hword
      refine hnext ?_ hslash
      unfold TokenKind.ofSign? at hc
      split at hc <;> cases hc
      rfl
    | name _ => cases TokenKind.isWord_of_ofWord (Word.token.inj hword)
    | _ => cases hword

/-- Only strings have carriage returns in them. -/
theorem notMem_take_of_firstWord (h : firstWord text = some (n, .token kind))
    (hkind : ∀ value, kind ≠ .string value) : '\r' ∉ text.take n := by
  generalize hword : Word.token kind = word at h
  cases takes_of_firstWord h with
  | blank _ | comment _ | refused _ _ => cases hword
  | newline | openString _ => simp
  | @sign c rest kind' hc _ =>
    rw [List.take_succ_cons, List.take_zero, List.mem_singleton]
    rintro rfl
    cases hc
  | string _ => exact (hkind _ (Word.token.inj hword)).elim
  | integer _ _ =>
    intro hmem
    exact absurd (isDigit_or_underscore hmem) (by decide)
  | name hc =>
    rw [take_nameLength]
    intro hmem
    exact absurd (List.mem_takeWhile_imp hmem) (by decide)
  | @illegal c rest hgap _ =>
    rw [List.take_succ_cons, List.take_zero, List.mem_singleton]
    rintro rfl
    cases hgap

end Scanner

namespace SameLines

variable {text plain : List Char} {n : Nat} {kind : TokenKind}

/-- A token without a carriage return is read in both texts. -/
theorem firstWord_token (h : SameLines text plain)
    (hword : Scanner.firstWord text = some (n, .token kind)) (hreturn : '\r' ∉ text.take n) :
    Scanner.firstWord plain = some (n, .token kind) ∧ plain.take n = text.take n
      ∧ SameLines (text.drop n) (plain.drop n) := by
  obtain ⟨hpos, hle⟩ := Scanner.firstWord_length hword
  have hlength : (text.take n).length = n := by
    rw [List.length_take, Nat.min_eq_left hle]
  obtain ⟨rest, rfl, hrest⟩ :
      ∃ rest, plain = text.take n ++ rest ∧ SameLines (text.drop n) rest := by
    rw [← List.take_append_drop n text] at h
    exact h.of_append hreturn
  refine ⟨?_, List.take_left' hlength, ?_⟩
  · by_cases hkind : kind = .illegal
    · -- an illegal quote has looked at all of the text
      subst hkind
      obtain ⟨rfl, c, after, rfl, ⟨rfl, hopen⟩ | ⟨hgap, hstart⟩⟩ := Scanner.firstWord_illegal hword
      · exact Scanner.firstWord_open (hrest.stringBody_eq_none hopen)
      · exact Scanner.firstWord_of_startsToken hgap hstart rest
    · have hends := Scanner.endsToken_drop hword
      refine Scanner.firstWord_take hword hkind ⟨fun hname => ?_, fun value hvalue => ?_, ?_⟩
      · exact hrest.head (by decide) (hends.name hname)
      · exact hrest.endsInteger (hends.integer value hvalue)
      · intro hdivide hslash
        have hne : ∀ c ∈ (text.drop n).head?, c ≠ '/' := fun c hc heq =>
          hends.divide hdivide (heq ▸ hc)
        exact hrest.head (by decide) hne '/' hslash rfl
  · rwa [List.drop_left' hlength]

/-- A blank or a comment is left out in both texts, and a carriage return in the first one. -/
theorem firstWord_gap (h : SameLines text plain)
    (hword : Scanner.firstWord text = some (n, .gap)) :
    SameLines (text.drop n) plain
      ∨ ∃ m, Scanner.firstWord plain = some (m, .gap) ∧ SameLines (text.drop n) (plain.drop m) := by
  generalize hgap : Word.gap = word at hword
  cases Scanner.takes_of_firstWord hword with
  | @blank c rest hc =>
    cases h with
    | pair h => exact .inl (.char (by decide) h)
    | @char c text plain _ h =>
      refine .inr ⟨1, ?_, h⟩
      simp only [Scanner.firstWord]
      rw [if_pos hc]
  | @comment rest hslash =>
    obtain ⟨after, rfl, hafter⟩ := h.of_cons (by decide)
    obtain ⟨rest, rfl⟩ := List.head?_eq_some_iff.1 hslash
    obtain ⟨after, rfl, -⟩ := hafter.of_cons (by decide)
    refine .inr ⟨_, rfl, ?_⟩
    have hline := hafter.dropWhile_line
    rw [← Scanner.drop_length_takeWhile, ← Scanner.drop_length_takeWhile] at hline
    exact hline
  | _ => cases hgap

end SameLines

/-- The walks over two texts with the same lines leave the same tokens. -/
theorem Walks.sameLines {source : Source} {i j : Nat} {ts : List Token} (h : Walks source i ts j)
    (hj : j = source.text.length)
    (hstrings : ∀ t ∈ ts, ∀ value, t.kind = .string value → '\r' ∉ t.lexeme.toList)
    {plain : Source} {k : Nat} (hk : k ≤ plain.text.length)
    (hlines : SameLines (source.text.drop i) (plain.text.drop k)) :
    ∃ us, Walks plain k us plain.text.length ∧ List.Forall₂ Token.Agrees ts us := by
  induction h generalizing k with
  | refl i =>
    rw [hj, List.drop_length] at hlines
    generalize hrest : plain.text.drop k = rest at hlines
    cases hlines
    obtain rfl : k = plain.text.length := by
      have hle := List.drop_eq_nil_iff.1 hrest
      omega
    exact ⟨[], .refl _, .nil⟩
  | @gap i n j ts hword _ ih =>
    rcases hlines.firstWord_gap hword with hnext | ⟨m, hgap, hnext⟩
    · -- a carriage return: the second walk stays in front of its newline
      rw [List.drop_drop] at hnext
      exact ih hj hstrings hk hnext
    · rw [List.drop_drop, List.drop_drop] at hnext
      have hm := (Scanner.firstWord_length hgap).2
      rw [List.length_drop] at hm
      obtain ⟨us, hus, hagrees⟩ := ih hj hstrings (by omega) hnext
      exact ⟨us, .gap hgap hus, hagrees⟩
  | @token i n j kind ts hword _ ih =>
    obtain ⟨hfirst, hrest⟩ := List.forall_mem_cons.1 hstrings
    have hreturn : '\r' ∉ (source.text.drop i).take n := by
      by_cases hkind : ∃ value, kind = .string value
      · obtain ⟨value, hvalue⟩ := hkind
        have hlexeme := hfirst value hvalue
        rwa [Scanner.tokenAt, String.toList_ofList] at hlexeme
      · exact Scanner.notMem_take_of_firstWord hword fun value hvalue => hkind ⟨value, hvalue⟩
    obtain ⟨hplain, htake, hnext⟩ := hlines.firstWord_token hword hreturn
    rw [List.drop_drop, List.drop_drop] at hnext
    have hn := (Scanner.firstWord_length hplain).2
    rw [List.length_drop] at hn
    obtain ⟨us, hus, hagrees⟩ := ih hj hrest (by omega) hnext
    refine ⟨_, .token hplain hus, .cons ⟨rfl, ?_⟩ hagrees⟩
    rw [Scanner.tokenAt, Scanner.tokenAt, htake]

/-! ## Sources and files -/

theorem SameLines.tokenize {name name' : Text} {text plain : List Char} {tokens : List Token}
    (h : SameLines text plain) (htokens : tokenize ⟨name, text⟩ = .ok tokens)
    (hstrings : ∀ t ∈ tokens, ∀ value, t.kind = .string value → '\r' ∉ t.lexeme.toList) :
    ∃ tokens', Scoreboard.tokenize ⟨name', plain⟩ = .ok tokens'
      ∧ List.Forall₂ Token.Agrees tokens tokens' := by
  obtain ⟨ts, hwalk, rfl⟩ := tokenize_eq_ok_iff.1 htokens
  have hlines : SameLines ((Source.text ⟨name, text⟩).drop 0)
      ((Source.text ⟨name', plain⟩).drop 0) := h
  obtain ⟨us, hus, hagrees⟩ := hwalk.sameLines rfl
    (fun t ht => hstrings t (List.mem_append_left _ ht)) (Nat.zero_le _) hlines
  exact ⟨_, tokenize_eq_ok_iff.2 ⟨us, hus, rfl⟩, List.rel_append hagrees (.cons ⟨rfl, rfl⟩ .nil)⟩

/-- Line endings do not matter. Let every carriage return of a text stand directly in front of a
newline, and let no string of the text have one in it. Then the text with newlines alone has
tokens of the same kinds, values and lexemes, and under any name it is compiled to the same
blocks, or fails with a diagnostic of the same kind and details. The same comes from a file that
holds the text: reading it turns the line endings into newlines. -/
theorem line_endings_agree {name : Text} {text : List Char} {tokens : List Token}
    (hreturns : Text.PairsReturns text) (htokens : tokenize ⟨name, text⟩ = .ok tokens)
    (hstrings : ∀ t ∈ tokens, ∀ value, t.kind = .string value → '\r' ∉ t.lexeme.toList) :
    (∀ name', ∃ tokens', tokenize ⟨name', Text.unixNewlines text⟩ = .ok tokens'
      ∧ List.Forall₂ Token.Agrees tokens tokens')
    ∧ (∀ (name' space main : Text), (Source.compile space main ⟨name, text⟩).Same
      (Source.compile space main ⟨name', Text.unixNewlines text⟩))
    ∧ ∀ (space main path shown : Text) (tree : FileTree),
      pathFlaw? path = none → tree.read path = .ok (String.ofList text).toUTF8 →
      ∃ compilation, Files.compile space main path shown tree = .ok compilation tree
        ∧ (Source.compile space main ⟨name, text⟩).Same compilation := by
  have hlines := sameLines_unixNewlines hreturns
  have hcompile (name' space main : Text) :
      (Source.compile space main ⟨name, text⟩).Same
        (Source.compile space main ⟨name', Text.unixNewlines text⟩) := by
    obtain ⟨tokens', htokens', hagrees⟩ := hlines.tokenize htokens hstrings
    exact Source.compile_of_agrees space main htokens htokens' hagrees
  refine ⟨fun name' => hlines.tokenize htokens hstrings, hcompile, ?_⟩
  intro space main path shown tree hflaw hread
  have htext := Files.readText_of_read hflaw hread (fromUTF8?_toUTF8 _)
  rw [String.toList_ofList, hlines.normalizeNewlines_eq] at htext
  refine ⟨_, ?_, hcompile shown space main⟩
  unfold Files.compile
  rw [bind_of_ok htext]
  rfl

theorem line_endings_agree_open_quote :
    let text := "let x = 1_0\r\nx = x / 2 // half\r\n raw \"a\n\" \"\\\r\n".toList
    let lexemes := ["let", "x", "=", "1_0", "\n", "x", "=", "x", "/", "2", "\n", "raw", "\"a\n\"",
      "\"", "\\", "\n", ""]
    let tree : FileTree := { entries := [(["a.es"], .file (String.ofList text).toUTF8)] }
    Text.PairsReturns text
    ∧ Text.unixNewlines text = "let x = 1_0\nx = x / 2 // half\n raw \"a\n\" \"\\\n".toList
    ∧ ∃ tokens tokens' compilation, tokenize ⟨"memory", text⟩ = .ok tokens
      ∧ tokens.map (·.lexeme) = lexemes
      ∧ (∀ t ∈ tokens, ∀ value, t.kind = .string value → '\r' ∉ t.lexeme.toList)
      ∧ tokenize ⟨"a.es", Text.unixNewlines text⟩ = .ok tokens'
      ∧ List.Forall₂ Token.Agrees tokens tokens'
      ∧ (Source.compile "pack" "main" ⟨"memory", text⟩).Same
        (Source.compile "pack" "main" ⟨"a.es", Text.unixNewlines text⟩)
      ∧ Files.compile "pack" "main" "a.es" "a.es" tree = .ok compilation tree
      ∧ (Source.compile "pack" "main" ⟨"memory", text⟩).Same compilation := by
  intro text lexemes tree
  have hreturns : Text.PairsReturns text := by decide +kernel
  obtain ⟨tokens, htokens, hall⟩ := exists_ok_of_any
    (x := tokenize ⟨"memory", text⟩)
    (p := fun tokens => (tokens.all fun t => '\r' ∉ t.lexeme.toList)
      && tokens.map (·.lexeme) = lexemes) (by decide +kernel)
  obtain ⟨hall, hlexemes⟩ := Bool.and_eq_true_iff.1 hall
  have hstrings : ∀ t ∈ tokens, ∀ value, t.kind = .string value → '\r' ∉ t.lexeme.toList :=
    fun t ht _ _ => of_decide_eq_true (List.all_eq_true.1 hall t ht)
  obtain ⟨hplain, hcompile, hfile⟩ := line_endings_agree hreturns htokens hstrings
  obtain ⟨tokens', htokens', hagrees⟩ := hplain "a.es"
  obtain ⟨compilation, hrun, hsame⟩ :=
    hfile "pack" "main" "a.es" "a.es" tree (by decide +kernel) (by decide +kernel)
  exact ⟨hreturns, by decide +kernel, tokens, tokens', compilation, htokens,
    of_decide_eq_true hlexemes, hstrings, htokens', hagrees, hcompile _ _ _, hrun, hsame⟩

end Scoreboard
