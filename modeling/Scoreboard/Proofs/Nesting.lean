import Mathlib
import Scoreboard.Proofs.Grammar
import Scoreboard.Proofs.Outcome
import Scoreboard.Proofs.Tiling
import Scoreboard.Proofs.Tokens

/-!
# Spans nest

The span of a node is put together in several ways: from the word that opens a statement to the
token taken last, from a name to the value behind it, from one operand to the other although
parentheses around them are gone, and from a minus sign to what it stands before. In each of these
ways it goes from the start of a token to the end of a token, and it encloses the spans of the
parameters and nodes that belong to the node, which come one behind the other in the order of the
source (`Source.parse_nests`).

The tokens that a node is read from decide this. Tokens in a row cover characters one behind the
other, so spans of separate parts of the row are disjoint, and a span over the whole row encloses
all others.
-/

namespace Scoreboard

/-! ## Tokens in a row -/

namespace Span

/-- A span that ends at or before the start of another one. -/
def Before (first second : Span) : Prop := first.stop.index ≤ second.start.index

/-- A span between the ends of another one. -/
structure Within (inner outer : Span) : Prop where
  start : outer.start.index ≤ inner.start.index
  stop : inner.stop.index ≤ outer.stop.index

end Span

/-- Tokens that cover characters, one behind the other. -/
structure InRow (ts : List Token) : Prop where
  covers : ∀ t ∈ ts, t.span.start.index < t.span.stop.index
  disjoint : ts.Pairwise fun t u => t.span.Before u.span

section
variable {ts us vs : List Token} {first t : Token} {s s' : Span}

theorem InRow.mono (h : InRow ts) (hus : us <:+: ts) : InRow us :=
  ⟨fun t ht => h.covers t (hus.subset ht), h.disjoint.sublist hus.sublist⟩

/-- No token starts before the first one. -/
theorem InRow.start_le (h : InRow (first :: ts)) (ht : t ∈ first :: ts) :
    first.span.start.index ≤ t.span.start.index := by
  rcases List.mem_cons.1 ht with rfl | ht
  · exact Nat.le_refl _
  · have hcovers := h.covers first List.mem_cons_self
    have hbefore : first.span.stop.index ≤ t.span.start.index :=
      (List.pairwise_cons.1 h.disjoint).1 t ht
    omega

/-- No token ends behind the last one. -/
theorem InRow.le_stop (h : InRow (first :: ts)) (ht : t ∈ first :: ts) :
    t.span.stop.index ≤ (ts.getLastD first).span.stop.index := by
  rcases List.eq_nil_or_concat ts with rfl | ⟨us, last, rfl⟩
  · rw [List.mem_singleton.1 ht]
    exact Nat.le_refl _
  · rw [List.concat_eq_append, ← List.cons_append] at h ht
    rw [List.concat_eq_append, getLastD_append_cons]
    rcases List.mem_append.1 ht with ht | ht
    · have hcovers := h.covers last (by simp)
      have hbefore : t.span.stop.index ≤ last.span.start.index :=
        (List.pairwise_append.1 h.disjoint).2.2 t ht last List.mem_cons_self
      show _ ≤ last.span.stop.index
      omega
    · rw [List.mem_singleton.1 ht]
      exact Nat.le_refl _

/-- The tokens at both ends of a span. -/
theorem SpanOf.ends (h : SpanOf ts s) :
    ∃ first ∈ ts, ∃ last ∈ ts, s = first.span.merge last.span := by
  obtain ⟨us, first, mid, vs, rfl, rfl⟩ := h
  have hlast : mid.getLastD first ∈ first :: mid := List.getLastD_mem_cons
  refine ⟨first, by simp, mid.getLastD first, ?_, rfl⟩
  rw [← List.cons_append]
  exact List.mem_append_right _ (List.mem_append_left _ hlast)

theorem SpanOf.covers (h : SpanOf ts s) (hts : InRow ts) : s.start.index < s.stop.index := by
  obtain ⟨us, first, mid, vs, rfl, rfl⟩ := h
  have hrow : InRow (first :: mid) := hts.mono ⟨us, vs, by simp⟩
  have hcovers := hrow.covers first List.mem_cons_self
  have hle := hrow.le_stop List.mem_cons_self
  show first.span.start.index < (mid.getLastD first).span.stop.index
  omega

/-- Spans of separate parts of a row are disjoint. -/
theorem SpanOf.before (h : SpanOf us s) (h' : SpanOf vs s') (hrow : InRow (us ++ vs)) :
    s.Before s' := by
  obtain ⟨-, -, last, hlast, rfl⟩ := h.ends
  obtain ⟨first, hfirst, -, -, rfl⟩ := h'.ends
  exact (List.pairwise_append.1 hrow.disjoint).2.2 last hlast first hfirst

/-- The span of a whole row encloses the spans of its tokens. -/
theorem SpanOf.within_cover (h : SpanOf (first :: ts) s) (hrow : InRow (first :: ts)) :
    s.Within (first.cover ts) := by
  obtain ⟨f, hf, l, hl, rfl⟩ := h.ends
  exact ⟨hrow.start_le hf, hrow.le_stop hl⟩

/-- Two spans that cover characters, one before the other, lie within the span over both. -/
theorem Span.Before.within_merge (h : s.Before s') (hcovers : s.start.index < s.stop.index)
    (hcovers' : s'.start.index < s'.stop.index) :
    s.Within (s.merge s') ∧ s'.Within (s.merge s') := by
  have hle : s.stop.index ≤ s'.start.index := h
  refine ⟨⟨Nat.le_refl _, ?_⟩, ⟨?_, Nat.le_refl _⟩⟩
  · show s.stop.index ≤ s'.stop.index
    omega
  · show s.start.index ≤ s'.start.index
    omega

end

/-! ## Nested nodes -/

namespace Node

variable {α : Type}

/-- The parameters that a node declares. -/
def parameters : Node α → List (Parameter α)
  | function _ parameters _ _ _ => parameters
  | _ => []

/-- The places of what belongs to a node, in the order of the source: its parameters, then the
nodes directly below it. -/
def parts (node : Node α) : List α :=
  node.parameters.map (·.mark) ++ node.children.map mark

/-- A node whose span encloses what belongs to it, one behind the other. -/
structure Encloses (node : Node Span) : Prop where
  within : ∀ part ∈ node.parts, part.Within node.mark
  ordered : node.parts.Pairwise Span.Before

end Node

theorem Sound.spanOf {ts : List Token} {nodes : List (Node Span)} (h : Sound ts nodes) :
    ∀ s ∈ nodes.map Node.mark, SpanOf ts s := by
  intro s hs
  obtain ⟨node, hnode, rfl⟩ := List.mem_map.1 hs
  exact (h node (Node.mem_trees.2 ⟨node, hnode, node.self_mem_tree⟩)).1

/-- Nodes one behind the other, in which every node at any depth encloses what belongs to it. -/
structure Nests (nodes : List (Node Span)) : Prop where
  ordered : (nodes.map Node.mark).Pairwise Span.Before
  encloses : ∀ x ∈ Node.trees nodes, x.Encloses

namespace Nests

variable {ts us : List Token} {nodes more : List (Node Span)} {node left right : Node Span}
variable {first : Token}

theorem nil : Nests [] := ⟨.nil, fun x hx => by cases hx⟩

theorem of_children (h : node.Encloses) (hchildren : Nests node.children) : Nests [node] := by
  refine ⟨List.pairwise_singleton _ _, fun x hx => ?_⟩
  obtain ⟨n, hn, hxn⟩ := Node.mem_trees.1 hx
  obtain rfl := List.mem_singleton.1 hn
  rw [Node.tree_eq] at hxn
  rcases List.mem_cons.1 hxn with rfl | hchild
  · exact h
  · exact hchildren.encloses x hchild

/-- A node without parameters and children. -/
theorem leaf (hparts : node.parts = []) (hchildren : node.children = []) : Nests [node] := by
  refine of_children ⟨?_, ?_⟩ (hchildren ▸ nil)
  · intro part hpart
    rw [hparts] at hpart
    cases hpart
  · rw [hparts]
    exact .nil

/-- Nodes of separate parts of a row. -/
theorem append (h : Nests nodes) (hmore : Nests more) (hnodes : Sound ts nodes)
    (hsound : Sound us more) (hrow : InRow (ts ++ us)) : Nests (nodes ++ more) := by
  constructor
  · rw [List.map_append]
    refine List.pairwise_append.2 ⟨h.ordered, hmore.ordered, fun s hs s' hs' => ?_⟩
    exact (hnodes.spanOf s hs).before (hsound.spanOf s' hs') hrow
  · intro x hx
    obtain ⟨node, hnode, hx⟩ := Node.mem_trees.1 hx
    rcases List.mem_append.1 hnode with hnode | hnode
    · exact h.encloses x (Node.mem_trees.2 ⟨node, hnode, hx⟩)
    · exact hmore.encloses x (Node.mem_trees.2 ⟨node, hnode, hx⟩)

end Nests

/-- A node over a whole row of tokens. -/
theorem Node.Encloses.of_cover {node : Node Span} {first : Token} {ts : List Token}
    (hmark : node.mark = first.cover ts) (hrow : InRow (first :: ts))
    (hparts : ∀ part ∈ node.parts, SpanOf (first :: ts) part)
    (hordered : node.parts.Pairwise Span.Before) : node.Encloses := by
  refine ⟨fun part hpart => ?_, hordered⟩
  rw [hmark]
  exact (hparts part hpart).within_cover hrow

/-- An operation, from its left operand to its right one. -/
theorem Node.Encloses.of_merge {op : Operator} {left right : Node Span} {ts us : List Token}
    (hleft : SpanOf ts left.mark) (hright : SpanOf us right.mark) (hrow : InRow (ts ++ us)) :
    (Node.binary op left right (left.mark.merge right.mark)).Encloses := by
  have hbefore := hleft.before hright hrow
  have hwithin := hbefore.within_merge (hleft.covers (hrow.mono ⟨[], us, by simp⟩))
    (hright.covers (hrow.mono ⟨ts, [], by simp⟩))
  exact ⟨List.forall_mem_cons.2 ⟨hwithin.1, List.forall_mem_singleton.2 hwithin.2⟩,
    List.pairwise_pair.2 hbefore⟩

/-! ## Spelled parameters and nodes -/

/-- Parameters come one behind the other. -/
theorem ParameterTail.ordered {ts : List Token} {ps : List (Parameter Span)}
    (h : ParameterTail ts ps) (hrow : InRow ts) : (ps.map (·.mark)).Pairwise Span.Before := by
  induction h with
  | last => exact List.pairwise_singleton _ _
  | @more name colon type comma ts ps _ _ _ _ hmore ih =>
    have hts : ts <:+: name :: colon :: type :: comma :: ts :=
      ⟨[name, colon, type, comma], [], by simp⟩
    rw [List.map_cons]
    refine .cons (fun s hs => ?_) (ih (hrow.mono hts))
    obtain ⟨p, hp, rfl⟩ := List.mem_map.1 hs
    have hfirst : SpanOf [name, colon, type] (name.span.merge type.span) :=
      .cover name [colon, type]
    exact hfirst.before ((hmore.spelled p hp).2.2.mono ⟨[comma], [], by simp⟩) hrow

theorem ParameterList.ordered {ts : List Token} {ps : List (Parameter Span)}
    (h : ParameterList ts ps) (hrow : InRow ts) : (ps.map (·.mark)).Pairwise Span.Before := by
  cases h with
  | none => exact .nil
  | some h => exact h.ordered hrow

theorem ParameterList.spanOf {ts : List Token} {ps : List (Parameter Span)}
    (h : ParameterList ts ps) : ∀ s ∈ ps.map (·.mark), SpanOf ts s := by
  intro s hs
  obtain ⟨p, hp, rfl⟩ := List.mem_map.1 hs
  exact (h.spelled p hp).2.2

/-- The nodes of a phrase nest, if its tokens are in a row. -/
theorem Derives.nests {ts : List Token} {phrase : Phrase} (h : Derives ts phrase)
    (hrow : InRow ts) : Nests phrase.nodes := by
  induction h with
  | plain _ ih => exact ih hrow
  | declare => exact .leaf rfl rfl
  | @define opening name equals typing ts type greedy value _ _ _ _ hvalue ih =>
    have hts : ts <:+: opening :: name :: (typing ++ equals :: ts) :=
      ⟨opening :: name :: (typing ++ [equals]), [], by simp⟩
    have hparts := (hvalue.sound.mono hts).spanOf
    have hchild := ih (hrow.mono hts)
    exact .of_children (.of_cover rfl hrow hparts hchild.ordered) hchild
  | @function opening name paren params typing ts parameters result body _ _ _ hparams _ hbody
      ih =>
    -- the parts are the parameters and, behind them and the type, the body
    have hbefore : params <:+: opening :: name :: paren :: (params ++ typing ++ ts) :=
      ⟨[opening, name, paren], typing ++ ts, by simp⟩
    have hts : ts <:+: opening :: name :: paren :: (params ++ typing ++ ts) :=
      ⟨opening :: name :: paren :: (params ++ typing), [], by simp⟩
    have hboth : params ++ (typing ++ ts)
        <:+: opening :: name :: paren :: (params ++ typing ++ ts) :=
      ⟨[opening, name, paren], [], by simp⟩
    have hchildren := ih (hrow.mono hts)
    refine .of_children (.of_cover rfl hrow ?_ ?_) hchildren
    · intro part hpart
      rcases List.mem_append.1 hpart with hpart | hpart
      · exact (hparams.spanOf part hpart).mono hbefore
      · exact (hbody.sound.spanOf part hpart).mono hts
    · refine List.pairwise_append.2
        ⟨hparams.ordered (hrow.mono hbefore), hchildren.ordered, fun s hs s' hs' => ?_⟩
      have hbehind : SpanOf (typing ++ ts) s' :=
        (hbody.sound.spanOf s' hs').mono ⟨typing, [], by simp⟩
      exact (hparams.spanOf s hs).before hbehind (hrow.mono hboth)
  | raw => exact .leaf rfl rfl
  | operand _ _ ih => exact ih hrow
  | @binary ts us sign op left right greedy least hleft _ hright _ ih₁ ih₂ =>
    have hts : ts <:+: ts ++ sign :: us := ⟨[], sign :: us, by simp⟩
    have hus : us <:+: ts ++ sign :: us := ⟨ts ++ [sign], [], by simp⟩
    -- the sign belongs to neither operand; it is counted to the tokens of the right one
    have hbehind : Sound (sign :: us) [right] := hright.sound.mono ⟨[sign], [], by simp⟩
    have hchildren := (ih₁ (hrow.mono hts)).append (ih₂ (hrow.mono hus)) hleft.sound hbehind hrow
    exact .of_children (.of_merge hleft.sound.mark hbehind.mark hrow) hchildren
  | integer => exact .leaf rfl rfl
  | negative => exact .leaf rfl rfl
  | @negate sign ts greedy node _ h _ ih =>
    have hts : ts <:+: sign :: ts := ⟨[sign], [], by simp⟩
    -- the zero that is negated from has the place of the sign, in front of the operand
    have hzero : Sound [sign] [.integer 0 sign.span] :=
      .of_children (.token sign) (.inl rfl) .nil
    have hleaf : Nests [.integer 0 sign.span] := .leaf rfl rfl
    have hchildren := hleaf.append (ih (hrow.mono hts)) hzero h.sound hrow
    exact .of_children (.of_merge hzero.mark h.sound.mark hrow) hchildren
  | string => exact .leaf rfl rfl
  | access => exact .leaf rfl rfl
  | @assign name equals ts greedy value _ _ hvalue ih =>
    have hts : ts <:+: name :: equals :: ts := ⟨[name, equals], [], by simp⟩
    have hbehind : SpanOf (equals :: ts) value.mark :=
      hvalue.sound.mark.mono ⟨[equals], [], by simp⟩
    -- the mark ends with the value and not with the last token, which may be a parenthesis
    have hname : SpanOf [name] name.span := .token name
    have hwithin := (hname.before hbehind hrow).within_merge (hname.covers (hrow.mono ⟨[], _, rfl⟩))
      (hbehind.covers (hrow.mono ⟨[name], [], by simp⟩))
    have hchild := ih (hrow.mono hts)
    refine .of_children ⟨?_, hchild.ordered⟩ hchild
    intro part hpart
    rw [List.mem_singleton.1 hpart]
    exact hwithin.2
  | @call name paren ts nodes _ _ harguments ih =>
    have hts : ts <:+: name :: paren :: ts := ⟨[name, paren], [], by simp⟩
    have hparts := (harguments.sound.mono hts).spanOf
    have hchildren := ih (hrow.mono hts)
    exact .of_children (.of_cover rfl hrow hparts hchildren.ordered) hchildren
  | @group paren close ts greedy node _ _ _ ih => exact ih (hrow.mono ⟨[paren], [close], by simp⟩)
  | noArguments => exact .nil
  | someArguments _ ih => exact ih hrow
  | @lastArgument ts close greedy node _ _ ih => exact ih (hrow.mono ⟨[], [close], by simp⟩)
  | @nextArgument ts us comma greedy node nodes h _ hmore ih₁ ih₂ =>
    refine Nests.append (ih₁ (hrow.mono ⟨[], comma :: us, by simp⟩))
      (ih₂ (hrow.mono ⟨ts ++ [comma], [], by simp⟩)) h.sound ?_ hrow
    exact hmore.sound.mono ⟨[comma], [], by simp⟩
  | emptyBlock => exact .nil
  | @someBlock brace close ls ts us greedy node nodes _ _ h hmore _ ih₁ ih₂ =>
    refine Nests.append (ih₁ (hrow.mono ⟨brace :: ls, us ++ [close], by simp⟩))
      (ih₂ (hrow.mono ⟨brace :: (ls ++ ts), [close], by simp⟩)) h.sound hmore.sound ?_
    exact hrow.mono ⟨brace :: ls, [close], by simp⟩
  | blockEnd => exact .nil
  | @blockNext ls ts us greedy node nodes _ _ h hmore ih₁ ih₂ =>
    refine Nests.append (ih₁ (hrow.mono ⟨ls, us, by simp⟩))
      (ih₂ (hrow.mono ⟨ls ++ ts, [], by simp⟩)) h.sound hmore.sound ?_
    exact hrow.mono ⟨ls, [], by simp⟩
  | noLine => exact .nil
  | lastLine _ ih => exact ih hrow
  | @nextLine ls ts us greedy node nodes h _ _ hmore ih₁ ih₂ =>
    refine Nests.append (ih₁ (hrow.mono ⟨[], ls ++ us, by simp⟩))
      (ih₂ (hrow.mono ⟨ts ++ ls, [], by simp⟩)) h.sound ?_ (List.append_assoc ts ls us ▸ hrow)
    exact hmore.sound.mono ⟨ls, [], by simp⟩

/-! ## Scripts of a source -/

/-- A place in a source that covers at least one character, from the start of a token to the end of
a token. -/
structure Span.BoundedBy (source : Source) (tokens : List Token) (span : Span) : Prop where
  eq_source : span.source = source
  covers : span.start.index < span.stop.index
  starts : ∃ t ∈ tokens, span.start = t.span.start
  stops : ∃ t ∈ tokens, span.stop = t.span.stop

/-- A node of a source that encloses what belongs to it, with places from token to token. -/
structure Node.Nested (source : Source) (tokens : List Token) (node : Node Span) : Prop
    extends node.Encloses where
  places : ∀ place ∈ node.places, place.BoundedBy source tokens

/-- Before the end of the text the tokens of a source are in a row. -/
theorem inRow_of_tokenize {source : Source} {ts : List Token}
    (h : tokenize source = .ok (ts ++ [source.endToken])) : InRow ts := by
  obtain ⟨us, hwalk, hsplit⟩ := tokenize_eq_ok_iff.1 h
  obtain ⟨rfl, -⟩ := List.append_inj' hsplit rfl
  have hdisjoint := (List.pairwise_append.1 (placed_of_tokenize h).disjoint).1
  exact ⟨fun t ht => (start_lt_stop hwalk ht).2, hdisjoint.imp fun hle => hle.2⟩

theorem SpanOf.boundedBy {source : Source} {tokens ts : List Token} {span : Span}
    (h : SpanOf ts span) (htokens : tokenize source = .ok tokens) (hts : ts <:+: tokens)
    (hrow : InRow ts) : span.BoundedBy source tokens := by
  have hcovers := h.covers hrow
  have hfits := ((placed_of_tokenize htokens).isRange_of_spanOf (h.mono hts)).fits
  obtain ⟨first, hfirst, last, hlast, rfl⟩ := h.ends
  exact ⟨hfits.eq_source, hcovers, ⟨first, hts.subset hfirst, rfl⟩, ⟨last, hts.subset hlast, rfl⟩⟩

/-- Spans nest. In a script that was read from a source, every node at any depth and every
parameter has a span that covers a character, from the start of a token to the end of a token of
the source. The span of a node encloses those of its parameters and of the nodes directly below
it. These come one behind the other in the order of the source, and so do the statements of the
script. -/
theorem Source.parse_nests {source : Source} {script : Script Span}
    (h : source.parse = .ok script) :
    ∃ tokens, tokenize source = .ok tokens
      ∧ (∀ node ∈ Node.trees script, node.Nested source tokens)
      ∧ (script.map Node.mark).Pairwise Span.Before := by
  obtain ⟨ls, us, htokens, -, hderives⟩ := Source.derives_of_parse h
  have hrow : InRow us := (inRow_of_tokenize htokens).mono ⟨ls, [], by simp⟩
  have hnests := hderives.nests hrow
  refine ⟨_, htokens, fun node hnode => ?_, hnests.ordered⟩
  refine ⟨hnests.encloses node hnode, fun place hplace => ?_⟩
  exact (hderives.spanOf_place hnode hplace).boundedBy htokens ⟨ls, _, rfl⟩ hrow

theorem Source.parse_nests_grouped :
    let text :=
      "\nfunction f(a: int, b: int) \x7b\n a = -((b) * 2) // twice\n\x7d\nf(1, (a + b) * -3)"
    let source : Source := ⟨"nested", text.toList⟩
    let covered := ["function f(a: int, b: int) \x7b\n a = -((b) * 2) // twice\n\x7d",
      "a = -((b) * 2", "-((b) * 2", "-", "b) * 2", "b", "2", "f(1, (a + b) * -3)", "1",
      "a + b) * -3", "a + b", "a", "b", "-3"]
    ∃ script tokens, source.parse = .ok script
      ∧ (Node.trees script).map (fun node => String.ofList node.mark.covered) = covered
      ∧ tokenize source = .ok tokens
      ∧ (∀ node ∈ Node.trees script, node.Nested source tokens)
      ∧ (script.map Node.mark).Pairwise Span.Before := by
  have hnests : ∀ (source : Source) (covered : List String),
      source.parse.toOption.any (fun script =>
        (Node.trees script).map (fun node => String.ofList node.mark.covered) = covered) = true →
      ∃ script tokens, source.parse = .ok script
        ∧ (Node.trees script).map (fun node => String.ofList node.mark.covered) = covered
        ∧ tokenize source = .ok tokens
        ∧ (∀ node ∈ Node.trees script, node.Nested source tokens)
        ∧ (script.map Node.mark).Pairwise Span.Before := by
    intro source covered hany
    obtain ⟨script, hparse, hcovered⟩ := exists_ok_of_any hany
    obtain ⟨tokens, hnested⟩ := Source.parse_nests hparse
    exact ⟨script, tokens, hparse, of_decide_eq_true hcovered, hnested⟩
  exact hnests _ _ (by decide +kernel)

end Scoreboard
