import Mathlib
import Scoreboard.Compilation
import Scoreboard.Proofs.Grammar
import Scoreboard.Proofs.Lexing
import Scoreboard.Proofs.Reading

/-!
# The tokens of a source

What the tokens that a source is cut into are like. An integer is refused exactly if it has
more digits than the limit (`refuses_iff`). Every token covers a range of the source, one
behind the other, and only the end of the text covers no character (`Placed`), so a span from
one token to another is a range of the source too (`Placed.isRange_of_spanOf`). An identifier
is spelled by a name that is no reserved word (`isName`).
-/

namespace Scoreboard

/-! ## Numerals -/

namespace Text

theorem digit_bounds {c : Char} (hc : c.isDigit = true) : 48 ≤ c.toNat ∧ c.toNat ≤ 57 := by
  unfold Char.isDigit at hc
  simp only [Bool.and_eq_true, decide_eq_true_eq, ge_iff_le, UInt32.le_iff_toNat_le] at hc
  exact hc

theorem digitValue?_of_isDigit {c : Char} (hc : c.isDigit = true) :
    digitValue? c = some (c.toNat - 48) := by
  have hbounds := digit_bounds hc
  unfold digitValue?
  rw [if_pos (by omega), if_pos hc]

theorem isNumeralBlank_of_isDigit {c : Char} (hc : c.isDigit = true) :
    isNumeralBlank c = false := by
  have hbounds := digit_bounds hc
  have hblank : isBlank c = false := by
    unfold isBlank
    rw [if_pos (by omega)]
    simp only [Bool.or_eq_false_iff, Bool.and_eq_false_imp, decide_eq_true_eq,
      decide_eq_false_iff_not]
    omega
  unfold isNumeralBlank
  rw [hblank, Bool.false_and]

/-- A text that holds no blank loses none. -/
theorem dropWhile_isNumeralBlank {ds : List Char} (hds : ∀ c ∈ ds, c.isDigit = true) :
    ds.dropWhile isNumeralBlank = ds := by
  cases ds with
  | nil => rfl
  | cons c rest =>
    have hc := isNumeralBlank_of_isDigit (hds c List.mem_cons_self)
    exact List.dropWhile_cons_of_neg (by rw [hc]; simp)

theorem mapM_digitValue? {ds : List Char} (hds : ∀ c ∈ ds, c.isDigit = true) :
    ds.mapM digitValue? = some (ds.map (·.toNat - 48)) := by
  induction ds with
  | nil => rfl
  | cons c rest ih =>
    obtain ⟨hc, hrest⟩ := List.forall_mem_cons.1 hds
    rw [List.mapM_cons, digitValue?_of_isDigit hc, ih hrest]
    rfl

/-- Digits are refused only for their number. -/
theorem integer?_of_digits {ds : List Char} (hds : ∀ c ∈ ds, c.isDigit = true) (hne : ds ≠ []) :
    integer? ds = if digitLimit < ds.length then none
      else some (Int.ofNat (ofDigits (ds.map (·.toNat - 48)))) := by
  have hreverse : ∀ c ∈ ds.reverse, c.isDigit = true := fun c hc => hds c (List.mem_reverse.1 hc)
  have hinner : ((ds.dropWhile isNumeralBlank).reverse.dropWhile isNumeralBlank).reverse = ds := by
    rw [dropWhile_isNumeralBlank hds, dropWhile_isNumeralBlank hreverse, List.reverse_reverse]
  have hnatural : natural? ds = if digitLimit < ds.length then none
      else some (ofDigits (ds.map (·.toNat - 48))) := by
    have hempty : ds.isEmpty = false := List.isEmpty_eq_false_iff.2 hne
    unfold natural?
    rw [hempty, Bool.false_or, mapM_digitValue? hds]
    simp only [decide_eq_true_eq]
    rfl
  -- a digit is no sign
  have hsign : integer? ds = (natural? ds).map Int.ofNat := by
    unfold integer?
    simp only
    rw [hinner]
    split
    · have := hds '+' List.mem_cons_self
      cases this
    · have := hds '-' List.mem_cons_self
      cases this
    · rfl
  rw [hsign, hnatural]
  split <;> rfl

/-- Digits write a number that is written by no more digits. -/
theorem length_toDigits_ofDigits {ds : List Nat} (hds : ∀ d ∈ ds, d < 10) {k : Nat} (hk : 0 < k)
    (hlength : ds.length ≤ k) : (Nat.toDigits 10 (ofDigits ds)).length ≤ k := by
  have hfold : ∀ n, ds.foldl (fun n d => 10 * n + d) n < (n + 1) * 10 ^ ds.length := by
    clear hlength
    induction ds with
    | nil => simp
    | cons d ds ih =>
      intro n
      have hd := hds d List.mem_cons_self
      have hrest := ih (fun e he => hds e (List.mem_cons_of_mem d he)) (10 * n + d)
      calc (d :: ds).foldl (fun n d => 10 * n + d) n
          < (10 * n + d + 1) * 10 ^ ds.length := hrest
        _ ≤ ((n + 1) * 10) * 10 ^ ds.length := Nat.mul_le_mul_right _ (by omega)
        _ = (n + 1) * 10 ^ (d :: ds).length := by
          rw [List.length_cons, Nat.pow_succ', Nat.mul_assoc]
  refine (Nat.length_toDigits_le_iff (by omega) hk).2 ?_
  calc ofDigits ds < (0 + 1) * 10 ^ ds.length := hfold 0
    _ ≤ 10 ^ k := by
      rw [Nat.zero_add, Nat.one_mul]
      exact Nat.pow_le_pow_right (by omega) hlength

end Text

namespace Scanner

theorem isDigit_or_underscore {text : List Char} {c : Char}
    (hc : c ∈ text.take (integerLength text)) : c.isDigit = true ∨ c = '_' := by
  fun_induction integerLength text with
  | case1 => cases hc
  | case2 d hd =>
    rw [List.take_succ_cons, List.mem_cons] at hc
    obtain rfl | hc := hc
    · exact .inl hd
    · simp at hc
  | case3 d hd => cases hc
  | case4 d e rest hd ih =>
    rw [List.take_succ_cons, List.mem_cons] at hc
    obtain rfl | hc := hc
    · obtain hd | hd := Bool.or_eq_true_iff.1 hd
      · exact .inl hd
      · exact .inr (eq_of_beq (Bool.and_eq_true_iff.1 hd).1)
    · exact ih hc
  | case5 d e rest hd => cases hc

/-- The number of digits of the integer at the start of a text; underscores do not count. -/
def digitCount (text : List Char) : Nat :=
  ((text.take (integerLength text)).filter Char.isDigit).length

theorem integerDigits_eq_filter (text : List Char) :
    integerDigits text = (text.take (integerLength text)).filter Char.isDigit := by
  unfold integerDigits
  refine List.filter_congr fun c hc => ?_
  obtain hdigit | rfl := isDigit_or_underscore hc
  · have hne : c ≠ '_' := fun heq => by rw [heq] at hdigit; cases hdigit
    rw [hdigit]
    simpa using hne
  · rfl

/-- A digit or the first character of a name is no sign. -/
theorem ofSign?_eq_none {c : Char}
    (hc : c.isDigit = true ∨ Text.startsName c = true) : TokenKind.ofSign? c = none := by
  unfold TokenKind.ofSign?
  split
  all_goals first | rfl | (exfalso; revert hc; decide)

/-- A digit starts an integer. -/
theorem firstWord_of_isDigit {c : Char} (hc : c.isDigit = true) (rest : List Char) :
    firstWord (c :: rest) = some (integerWord (c :: rest)) := by
  have hne : ∀ d : Char, d.isDigit = false → (c == d) = false := by
    intro d hd
    refine beq_eq_false_iff_ne.2 fun heq => ?_
    rw [heq, hd] at hc
    cases hc
  have hgap : isGap c = false := by
    unfold isGap
    rw [hne ' ' rfl, hne '\t' rfl, hne '\r' rfl, hne '\x0c' rfl]
    rfl
  simp only [firstWord]
  rw [hgap, hne '\n' rfl, hne '/' rfl, ofSign?_eq_none (.inl hc), hne '"' rfl, hc]
  rfl

end Scanner

/-- A walk is refused exactly before an integer with more digits than the limit. -/
theorem refuses_iff {source : Source} {i : Nat} :
    Refuses source i ↔ (∃ c ∈ (source.text.drop i).head?, c.isDigit = true)
      ∧ Text.digitLimit < Scanner.digitCount (source.text.drop i) := by
  unfold Refuses
  cases htext : source.text.drop i with
  | nil =>
    constructor
    · rintro ⟨n, hn⟩
      cases hn
    · rintro ⟨⟨c, hc, -⟩, -⟩
      cases hc
  | cons c rest =>
    -- the digits of an integer are digits, and its first character is one of them
    have hdigits : ∀ d ∈ Scanner.integerDigits (c :: rest), d.isDigit = true := by
      intro d hd
      rw [Scanner.integerDigits_eq_filter] at hd
      exact (List.mem_filter.1 hd).2
    have hsome (hc : c.isDigit = true) : Scanner.integerDigits (c :: rest) ≠ [] := by
      rw [Scanner.integerDigits_eq_filter, Scanner.integerLength_cons hc, Nat.add_comm,
        List.take_succ_cons, List.filter_cons_of_pos hc]
      simp
    have hcount : (Scanner.integerDigits (c :: rest)).length = Scanner.digitCount (c :: rest) := by
      rw [Scanner.integerDigits_eq_filter]
      rfl
    constructor
    · rintro ⟨n, hn⟩
      cases Scanner.takes_of_firstWord hn with
      | refused hc hvalue =>
        refine ⟨⟨c, rfl, hc⟩, ?_⟩
        rw [Text.integer?_of_digits hdigits (hsome hc), hcount] at hvalue
        by_contra hlimit
        rw [if_neg hlimit] at hvalue
        cases hvalue
    · rintro ⟨⟨d, hd, hc⟩, hlimit⟩
      cases hd
      refine ⟨Scanner.integerLength (c :: rest), ?_⟩
      rw [Scanner.firstWord_of_isDigit hc]
      unfold Scanner.integerWord
      rw [Text.integer?_of_digits hdigits (hsome hc), hcount, if_pos hlimit]

/-! ## Places of tokens -/

/-- Tokens that cover ranges of a source from an offset on, one behind the other. Only a
token at the end of the text may cover no character. -/
inductive Placed (source : Source) : Nat → List Token → Prop
  | nil {i : Nat} (hi : i ≤ source.text.length) : Placed source i []
  | cons {i a b : Nat} {t : Token} {ts : List Token} (hi : i ≤ a) (hle : a ≤ b)
      (hcover : a < b ∨ a = source.text.length) (hspan : t.span = Span.ofRange source a b)
      (hrest : Placed source b ts) : Placed source i (t :: ts)

/-- A range of a source that covers a character or stands at the end of the text. -/
def IsRange (source : Source) (i : Nat) (span : Span) : Prop :=
  ∃ a b : Nat, i ≤ a ∧ a ≤ b ∧ b ≤ source.text.length
    ∧ (a < b ∨ a = source.text.length) ∧ span = Span.ofRange source a b

namespace Placed

variable {source : Source} {i j : Nat} {ts us : List Token} {t : Token}

theorem le_length (h : Placed source i ts) : i ≤ source.text.length := by
  induction h with
  | nil hi => exact hi
  | cons hi hle _ _ _ ih => omega

theorem mono (h : Placed source j ts) (hij : i ≤ j) : Placed source i ts := by
  cases h with
  | nil hj => exact .nil (by omega)
  | cons hj hle hcover hspan hrest => exact .cons (by omega) hle hcover hspan hrest

theorem of_append (h : Placed source i (ts ++ us)) : Placed source i us := by
  induction ts generalizing i with
  | nil => exact h
  | cons t ts ih =>
    cases h with
    | cons hi hle _ _ hrest => exact (ih hrest).mono (by omega)

theorem isRange_of_mem (h : Placed source i ts) (ht : t ∈ ts) : IsRange source i t.span := by
  obtain ⟨before, after, rfl⟩ := List.append_of_mem ht
  cases h.of_append with
  | @cons _ a b _ _ hi hle hcover hspan hrest =>
    exact ⟨a, b, hi, hle, hrest.le_length, hcover, hspan⟩

/-- No token starts before the end of an earlier one. -/
theorem disjoint (h : Placed source i ts) :
    ts.Pairwise fun t u => t.span.start.index ≤ t.span.stop.index
      ∧ t.span.stop.index ≤ u.span.start.index := by
  induction h with
  | nil => exact .nil
  | @cons i a b t ts hi hle hcover hspan hrest ih =>
    have hlength := hrest.le_length
    have hstart : t.span.start.index = a := by
      rw [hspan]
      exact Position.index_ofIndex (by omega)
    have hstop : t.span.stop.index = b := by
      rw [hspan]
      exact Position.index_ofIndex hlength
    refine .cons (fun u hu => ?_) ih
    obtain ⟨a', b', hb, hle', hlength', -, hspan'⟩ := hrest.isRange_of_mem hu
    have hnext : u.span.start.index = a' := by
      rw [hspan']
      exact Position.index_ofIndex (by omega)
    omega

/-- From the start of a token to the end of the same or a later one is a range, too. -/
theorem isRange_of_spanOf (h : Placed source i ts) {span : Span} (hspan : SpanOf ts span) :
    IsRange source i span := by
  obtain ⟨before, first, mid, after, rfl, rfl⟩ := hspan
  cases h.of_append with
  | @cons _ a b _ _ hi hle hcover hfirst hrest =>
    unfold Token.cover
    cases hmid : mid.getLast? with
    | none =>
      rw [List.getLast?_eq_none_iff] at hmid
      subst hmid
      refine ⟨a, b, hi, hle, hrest.le_length, hcover, ?_⟩
      show first.span.merge first.span = _
      rw [hfirst]
      rfl
    | some last =>
      have hlast : last ∈ mid ++ after :=
        List.mem_append_left _ (List.mem_of_getLast? hmid)
      obtain ⟨a', b', hb, hle', hlength, hcover', hspan'⟩ := hrest.isRange_of_mem hlast
      refine ⟨a, b', hi, by omega, hlength, by omega, ?_⟩
      rw [List.getLastD_eq_getLast?, hmid, Option.getD_some, hfirst, hspan']
      rfl

end Placed

theorem Walks.placed {source : Source} {i j : Nat} {ts us : List Token} (h : Walks source i ts j)
    (hi : i ≤ source.text.length) (hus : Placed source j us) : Placed source i (ts ++ us) := by
  induction h with
  | refl => exact hus
  | gap hword _ ih =>
    obtain ⟨hn, hlength⟩ := Scanner.firstWord_length hword
    rw [List.length_drop] at hlength
    exact (ih (by omega) hus).mono (by omega)
  | token hword _ ih =>
    obtain ⟨hn, hlength⟩ := Scanner.firstWord_length hword
    rw [List.length_drop] at hlength
    exact .cons (Nat.le_refl _) (by omega) (.inl (by omega)) rfl (ih (by omega) hus)

theorem placed_of_tokenize {source : Source} {tokens : List Token}
    (h : tokenize source = .ok tokens) : Placed source 0 tokens := by
  obtain ⟨ts, hwalk, rfl⟩ := tokenize_eq_ok_iff.1 h
  refine hwalk.placed (Nat.zero_le _) ?_
  exact .cons (Nat.le_refl _) (Nat.le_refl _) (.inr rfl) rfl (.nil (Nat.le_refl _))

/-! ## Kinds of tokens -/

/-- A word that a script may use as a name: it starts and goes on like one and is not
reserved. -/
def isName (name : String) : Bool :=
  (match name.toList with
    | [] => false
    | c :: rest => Text.startsName c && rest.all Text.continuesName)
  && TokenKind.ofWord name == .identifier

namespace Scanner

theorem take_nameLength (text : List Char) :
    text.take (nameLength text) = text.takeWhile Text.continuesName :=
  (List.prefix_iff_eq_take.1 (List.takeWhile_prefix _)).symm

/-- An integer that can be read is not longer than the limit. -/
theorem length_toDigits_of_integer? {c : Char} (hc : c.isDigit = true) {rest : List Char}
    {value : Int} (h : Text.integer? (integerDigits (c :: rest)) = some value) :
    (Nat.toDigits 10 value.natAbs).length ≤ Text.digitLimit := by
  rw [integerDigits_eq_filter] at h
  have hdigit : ∀ d ∈ ((c :: rest).take (integerLength (c :: rest))).filter Char.isDigit,
      d.isDigit = true := fun d hd => (List.mem_filter.1 hd).2
  have hne : ((c :: rest).take (integerLength (c :: rest))).filter Char.isDigit ≠ [] := by
    rw [integerLength_cons hc, Nat.add_comm, List.take_succ_cons, List.filter_cons_of_pos hc]
    exact List.cons_ne_nil _ _
  rw [Text.integer?_of_digits hdigit hne] at h
  split at h
  · cases h
  · rename_i hlimit
    cases h
    refine Text.length_toDigits_ofDigits ?_ (by decide) (by rw [List.length_map]; omega)
    rw [List.forall_mem_map]
    intro d hd
    have hbounds := Text.digit_bounds (hdigit d hd)
    omega

/-- What a walk can leave: no end of the text, names only as identifiers, and no integer that
is longer than the limit. -/
theorem firstWord_token {text : List Char} {n : Nat} {kind : TokenKind}
    (h : firstWord text = some (n, .token kind)) :
    kind ≠ .endOfText ∧ (kind = .identifier → isName (String.ofList (text.take n)) = true)
      ∧ ∀ value, kind = .integer value →
        (Nat.toDigits 10 value.natAbs).length ≤ Text.digitLimit := by
  have htakes := takes_of_firstWord h
  generalize hword : Word.token kind = word at htakes
  cases htakes with
  | blank _ => cases hword
  | newline =>
    cases hword
    simp
  | comment => cases hword
  | sign hc _ =>
    cases hword
    unfold TokenKind.ofSign? at hc
    split at hc <;> cases hc <;> simp
  | string _ =>
    cases hword
    simp
  | openString =>
    cases hword
    simp
  | integer hc hvalue =>
    cases hword
    refine ⟨by simp, by simp, fun value heq => ?_⟩
    cases heq
    exact length_toDigits_of_integer? hc hvalue
  | refused _ _ => cases hword
  | @name c rest hc =>
    cases hword
    refine ⟨?_, fun hkind => ?_, ?_⟩
    · unfold TokenKind.ofWord
      split <;> simp
    · unfold isName
      rw [hkind, take_nameLength, List.takeWhile_cons_of_pos (continuesName_of_startsName hc),
        String.toList_ofList]
      have hrest : (rest.takeWhile Text.continuesName).all Text.continuesName = true :=
        List.all_takeWhile
      simp only [hc, hrest]
      rfl
    · unfold TokenKind.ofWord
      split <;> simp
  | illegal =>
    cases hword
    simp

end Scanner

theorem Walks.endsText {source : Source} {i j : Nat} {ts : List Token} {t : Token}
    (h : Walks source i ts j) (ht : t.kind = .endOfText) : EndsText (ts ++ [t]) := by
  induction h with
  | refl => exact ht
  | gap _ _ ih => exact ih
  | @token i n j kind ts hword _ ih =>
    have hkind := (Scanner.firstWord_token hword).1
    cases ts with
    | nil => exact ⟨hkind, ih⟩
    | cons u us => exact ⟨hkind, ih⟩

theorem endsText_of_tokenize {source : Source} {tokens : List Token}
    (h : tokenize source = .ok tokens) : EndsText tokens := by
  obtain ⟨ts, hwalk, rfl⟩ := tokenize_eq_ok_iff.1 h
  exact hwalk.endsText rfl

theorem Walks.isName {source : Source} {i j : Nat} {ts : List Token} {t : Token}
    (h : Walks source i ts j) (ht : t ∈ ts) (hkind : t.kind = .identifier) :
    isName t.lexeme = true := by
  induction h with
  | refl => cases ht
  | gap _ _ ih => exact ih ht
  | token hword _ ih =>
    obtain rfl | ht := List.mem_cons.1 ht
    · exact (Scanner.firstWord_token hword).2.1 hkind
    · exact ih ht

theorem Walks.length_toDigits {source : Source} {i j : Nat} {ts : List Token} {t : Token}
    {value : Int} (h : Walks source i ts j) (ht : t ∈ ts) (hkind : t.kind = .integer value) :
    (Nat.toDigits 10 value.natAbs).length ≤ Text.digitLimit := by
  induction h with
  | refl => cases ht
  | gap _ _ ih => exact ih ht
  | token hword _ ih =>
    obtain rfl | ht := List.mem_cons.1 ht
    · exact (Scanner.firstWord_token hword).2.2 value hkind
    · exact ih ht

/-- The names that tokens of a source spell. -/
theorem isName_of_spells {source : Source} {tokens : List Token} {name : String}
    (h : tokenize source = .ok tokens) (hname : Spells tokens name) : isName name = true := by
  obtain ⟨ts, hwalk, rfl⟩ := tokenize_eq_ok_iff.1 h
  obtain ⟨t, ht, hkind, rfl⟩ := hname
  obtain ht | ht := List.mem_append.1 ht
  · exact hwalk.isName ht hkind
  · rw [List.mem_singleton.1 ht] at hkind
    cases hkind

/-- The integers that tokens of a source spell. -/
theorem length_toDigits_of_spells {source : Source} {tokens : List Token} {n : Int}
    (h : tokenize source = .ok tokens) (hn : SpellsInteger tokens n) :
    (Nat.toDigits 10 n.natAbs).length ≤ Text.digitLimit := by
  obtain ⟨ts, hwalk, rfl⟩ := tokenize_eq_ok_iff.1 h
  obtain ⟨t, ht, hkind⟩ := hn
  obtain ht | ht := List.mem_append.1 ht
  · obtain hkind | hkind := hkind
    · exact hwalk.length_toDigits ht hkind
    · have hlength := hwalk.length_toDigits ht hkind
      rwa [Int.natAbs_neg] at hlength
  · rw [List.mem_singleton.1 ht] at hkind
    obtain hkind | hkind := hkind <;> cases hkind

/-! ## Scripts of a source -/

/-- An accepted source is cut into newlines, the tokens that spell its script, and the end of the
text. -/
theorem Source.derives_of_parse {source : Source} {script : Script Span}
    (h : source.parse = .ok script) :
    ∃ ls us, tokenize source = .ok (ls ++ us ++ [source.endToken]) ∧ Newlines ls
      ∧ Derives us (.lines script) := by
  unfold Source.parse at h
  split at h
  · cases h
  · rename_i tokens htokens
    split at h
    · cases h
    · rename_i script' hparse
      cases h
      obtain ⟨ls, us, close, rfl, hlines, hderives, -⟩ :=
        Scoreboard.derives_of_parse (endsText_of_tokenize htokens) hparse
      obtain ⟨ts, -, hsplit⟩ := tokenize_eq_ok_iff.1 htokens
      obtain ⟨-, hclose⟩ := List.append_inj' hsplit rfl
      exact ⟨ls, us, hclose ▸ htokens, hlines, hderives⟩

theorem Source.parse_ok {source : Source} {script : Script Span}
    (h : source.parse = .ok script) :
    ∃ tokens us, tokenize source = .ok tokens ∧ us <:+: tokens ∧ Derives us (.lines script) := by
  obtain ⟨ls, us, htokens, -, hderives⟩ := Source.derives_of_parse h
  exact ⟨_, us, htokens, ⟨ls, [source.endToken], rfl⟩, hderives⟩

end Scoreboard
