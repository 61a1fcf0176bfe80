import Signum.Proofs.Documentation.Leads
import Signum.Proofs.Syntax.Boundaries
/- What becomes of a documentation comment.

   The blocks but a list at the end are told: the first paragraph is the summary and the others
   are the discussion, in order and each once (`Told`). The list at the end holds fields, which
   are the entries under `Variables:` and the items for the expected result (`Fielded`). An
   entry is filed under its name, where a later entry of that name replaces it, and the last item
   for the expected result stands. Other items of that list, and entries without a colon, are no
   fields and are passed over. Both properties are kept by each step, and so by the run over the
   blocks, the items and the entries. -/
namespace Signum

open Markdown

namespace Documentation

/-! What a comment holds. -/

/-- The blocks of a document but for a list at its end, and the items of that list. -/
def Ends (document body : Document) (items : List (List (Block (List Inline)))) : Prop :=
  (document = body ∧ items = [] ∧ ∀ start items, body.getLast? ≠ some (.list start items)) ∨
    ∃ start, document = body ++ [.list start items]

/-- Whether the block is a paragraph. -/
def isParagraph : Block (List Inline) → Bool
  | .paragraph _ => true
  | _ => false

/-- The first paragraph is the summary, and all other blocks are the discussion. -/
def Told (body : Document) (d : Documentation) : Prop :=
  ((∀ b ∈ body, isParagraph b = false) ∧ d.summary = none ∧ d.discussion = body.map discussed) ∨
    ∃ before content after, body = before ++ .paragraph content :: after ∧
      (∀ b ∈ before, isParagraph b = false) ∧ d.summary = some content ∧
      d.discussion = (before ++ after).map discussed

/-- The entries that an item of the list holds: those of its second block, when the first is
`Variables:`. -/
def documentedIn (item : List (Block (List Inline))) : List Entry :=
  match item with
  | _ :: next :: _ => if headText? item = some (Bytes.ofString "Variables:") then entries next else []
  | _ => []

/-- What an entry documents, with the name; nothing without a colon. -/
def Entry.field? (e : Entry) : Option (Bytes × Passage) :=
  (Bytes.cut 58 e.text).bind fun (name, _) => (e.content (name ++ ":")).map (name.trim, ·)

/-- Whether an item of the list tells the expected result. -/
def tellsExpected (item : List (Block (List Inline))) : Bool :=
  (headText? item).any fun head => head.startsWith "Expects:"

/-- The expected result that an item tells. -/
def expectation? (item : List (Block (List Inline))) : Option Passage :=
  (cutItem? "Expects:" item).map .blocks

/-- What the entries and the items for the expected result say is kept. Under a name there is
what its last entry says, and the expected result is the last one. -/
structure Fielded (documented : List Entry) (expectations : List (List (Block (List Inline))))
    (d : Documentation) : Prop where
  named : ∀ e ∈ documented, ∀ name rest, Bytes.cut 58 e.text = some (name, rest) →
    ∃ p, e.content (name ++ ":") = some p ∧ Keeps (name ++ ":") e p
  entry : ∀ name,
    d.variables.lookup name = (documented.filterMap Entry.field?).reverse.lookup name
  once : (d.variables.map Prod.fst).Nodup
  result : ∀ item ∈ expectations,
    ∃ p, expectation? item = some p ∧ Keeps "Expects:" (.ofItem item) p
  expected : d.expects = expectations.getLast?.bind expectation?

/-- What the fields leave as it is. -/
def story (d : Documentation) : Bytes × Option (List Inline) × List (Block (List Inline)) :=
  (d.comment, d.summary, d.discussion)

variable {d d' : Documentation}

theorem Told.congr {body : Document} (h : Told body d) (hstory : story d' = story d) :
    Told body d' := by
  have hsummary : d'.summary = d.summary := congrArg (·.2.1) hstory
  have hdiscussion : d'.discussion = d.discussion := congrArg (·.2.2) hstory
  unfold Told
  rw [hsummary, hdiscussion]
  exact h

/-- What each step of a fold keeps is kept by the fold. -/
theorem foldlM_keeps {α β : Type} {f : β → α → Option β} {P : List α → β → Prop} {xs : List α}
    (step : ∀ done x s s', x ∈ xs → P done s → f s x = some s' → P (done ++ [x]) s')
    {done : List α} {s s' : β} (h : xs.foldlM f s = some s') (hs : P done s) :
    P (done ++ xs) s' := by
  induction xs generalizing done s with
  | nil =>
    cases h
    rwa [List.append_nil]
  | cons x rest ih =>
    rw [List.foldlM_cons] at h
    obtain ⟨mid, hx, hrest⟩ := Option.bind_eq_some_iff.mp h
    have hmid := step done x s mid List.mem_cons_self hs hx
    have hend := ih (fun done y s s' hy => step done y s s' (List.mem_cons_of_mem x hy)) hrest hmid
    rwa [List.append_assoc] at hend

/-! An entry. -/

theorem lookup_filter_ne (vs : List (Bytes × Passage)) (name n : Bytes) :
    (vs.filter fun v => v.1 != name).lookup n = if n = name then none else vs.lookup n := by
  split
  · next hn =>
    apply List.lookup_eq_none_iff.mpr
    intro v hv
    have hne : v.1 ≠ name := bne_iff_ne.mp (List.mem_filter.mp hv).2
    rw [hn]
    exact bne_iff_ne.mpr hne.symm
  · next hn =>
    induction vs with
    | nil => rfl
    | cons v vs ih =>
      by_cases hv : v.1 = name
      · have hnv : (n == v.1) = false := beq_eq_false_iff_ne.mpr fun h => hn (h.trans hv)
        rw [List.filter_cons_of_neg (by simp [hv]), ih, List.lookup_cons, hnv]
      · rw [List.filter_cons_of_pos (by simp [hv]), List.lookup_cons, List.lookup_cons, ih]

theorem lookup_document (name : Bytes) (content : Passage) (n : Bytes) :
    (d.document name content).variables.lookup n =
      if n = name then some content else d.variables.lookup n := by
  rw [document, List.lookup_append, lookup_filter_ne]
  by_cases hn : n = name
  · rw [if_pos hn, if_pos hn, Option.none_or, List.lookup_cons, beq_iff_eq.mpr hn]
  · rw [if_neg hn, if_neg hn, List.lookup_cons, beq_eq_false_iff_ne.mpr hn, List.lookup_nil,
      Option.or_none]

theorem document_nodup (h : (d.variables.map Prod.fst).Nodup) (name : Bytes) (content : Passage) :
    ((d.document name content).variables.map Prod.fst).Nodup := by
  rw [document, List.map_append, List.nodup_append]
  refine ⟨(List.filter_sublist.map Prod.fst).nodup h, by simp, ?_⟩
  intro a ha b hb hab
  obtain ⟨v, hv, rfl⟩ := List.mem_map.mp ha
  have hne := (List.mem_filter.mp hv).2
  rw [hab, List.mem_singleton.mp hb] at hne
  simp at hne

theorem Fielded.take {documented : List Entry} {expectations : List (List (Block (List Inline)))}
    (h : Fielded documented expectations d) {b : Block (List Inline)} {e : Entry}
    (he : e ∈ entries b) (htake : takeDocumented? d e = some d') :
    Fielded (documented ++ [e]) expectations d' ∧ story d' = story d := by
  unfold takeDocumented? at htake
  split at htake
  · next hcut =>
    -- without a colon the entry is passed over
    cases htake
    have hfield : e.field? = none := by rw [Entry.field?, hcut, Option.bind_none]
    refine ⟨⟨?_, ?_, h.once, h.result, h.expected⟩, rfl⟩
    · intro e' he' name rest hname
      rcases List.mem_append.mp he' with he' | he'
      · exact h.named e' he' name rest hname
      · rw [List.mem_singleton.mp he', hcut] at hname
        cases hname
    · intro name
      rw [List.filterMap_append, List.filterMap_cons_none hfield, List.filterMap_nil,
        List.append_nil]
      exact h.entry name
  · next name rest hcut =>
    obtain ⟨p, hp, rfl⟩ := Option.map_eq_some_iff.mp htake
    have hfield : e.field? = some (name.trim, p) := by
      rw [Entry.field?, hcut]
      exact congrArg (Option.map (name.trim, ·)) hp
    refine ⟨⟨?_, ?_, document_nodup h.once _ _, h.result, h.expected⟩, rfl⟩
    · intro e' he' name' rest' hname
      rcases List.mem_append.mp he' with he' | he'
      · exact h.named e' he' name' rest' hname
      · rw [List.mem_singleton.mp he', hcut] at hname
        cases hname
        rw [List.mem_singleton.mp he']
        exact ⟨p, hp, entry_keeps he hp (.of_cut hcut)⟩
    · intro n
      rw [lookup_document, List.filterMap_append, List.filterMap_cons_some hfield,
        List.filterMap_nil, List.reverse_append, List.reverse_singleton, List.singleton_append,
        List.lookup_cons, h.entry n]
      by_cases hn : n = name.trim
      · rw [if_pos hn, beq_iff_eq.mpr hn]
      · rw [if_neg hn, beq_eq_false_iff_ne.mpr hn]

/-! An item. -/

theorem documentedIn_of_ne {item : List (Block (List Inline))}
    (h : headText? item ≠ some (Bytes.ofString "Variables:")) : documentedIn item = [] := by
  unfold documentedIn
  split
  · exact if_neg h
  · rfl

theorem documentedIn_nil {item : List (Block (List Inline))} (h : tellsExpected item = true) :
    documentedIn item = [] := by
  apply documentedIn_of_ne
  intro hhead
  rw [tellsExpected, hhead] at h
  exact absurd h (by decide)

/-- An item tells the expected result, or it is taken for the entries it holds. -/
theorem takeItem_eq (d : Documentation) (item : List (Block (List Inline))) :
    takeItem? d item =
      if tellsExpected item then (expectation? item).map fun p => { d with expects := some p }
      else (documentedIn item).foldlM takeDocumented? d := by
  have hexpected (head : Bytes) (hhead : headText? item = some head)
      (hnone : documentedIn item = []) : takeItem?.expected d item head =
        if tellsExpected item then (expectation? item).map fun p => { d with expects := some p }
        else (documentedIn item).foldlM takeDocumented? d := by
    rw [takeItem?.expected, tellsExpected, hhead, Option.any_some, hnone, expectation?,
      Option.map_map]
    rfl
  rw [takeItem?]
  cases hhead : headText? item with
  | none =>
    have hnone : documentedIn item = [] := by
      apply documentedIn_of_ne
      rw [hhead]
      exact (Option.some_ne_none _).symm
    rw [tellsExpected, hhead, hnone]
    rfl
  | some head =>
    dsimp only
    split
    · next first next rest =>
      split
      · next hvariables =>
        rw [tellsExpected, hhead, hvariables]
        rw [if_neg (by decide), documentedIn, hhead, hvariables, if_pos rfl]
      · next hvariables =>
        apply hexpected head hhead
        apply documentedIn_of_ne
        rw [hhead]
        exact fun h => hvariables (Option.some.inj h)
    · next hshort =>
      -- there is no second block, so `Variables:` has no entries
      apply hexpected head hhead
      unfold documentedIn
      split
      · next first next rest => exact absurd rfl (hshort first next rest)
      · rfl

theorem expectation_keeps {item : List (Block (List Inline))} {p : Passage}
    (hitem : tellsExpected item = true) (hp : expectation? item = some p) :
    Keeps "Expects:" (.ofItem item) p := by
  apply ofItem_keeps hp
  obtain ⟨head, hhead, hstart⟩ := (Option.any_eq_true _ _).mp hitem
  have hhead' : head <+: Block.writtenAll item := by
    unfold headText? at hhead
    split at hhead
    · cases hhead
      rw [Block.writtenAll, Block.written]
      exact List.prefix_append ..
    · cases hhead
      rw [Block.writtenAll, Block.written]
      exact List.prefix_append ..
    · cases hhead
  refine ⟨Bytes.ofString "Expects", by decide, by decide, ?_⟩
  rw [← Lexer.startsWith_eq hstart]
  exact (List.take_prefix ..).trans hhead'

/-- The entries of an item. -/
theorem Fielded.takeAll {documented : List Entry}
    {expectations : List (List (Block (List Inline)))} (h : Fielded documented expectations d)
    {item : List (Block (List Inline))}
    (htake : (documentedIn item).foldlM takeDocumented? d = some d') :
    Fielded (documented ++ documentedIn item) expectations d' ∧ story d' = story d := by
  let P (done : List Entry) (s : Documentation) : Prop :=
    Fielded (documented ++ done) expectations s ∧ story s = story d
  have hrun : P ([] ++ documentedIn item) d' := by
    refine foldlM_keeps ?_ htake ⟨by rwa [List.append_nil], rfl⟩
    intro done e s s' he ⟨hs, hstory⟩ hstep
    obtain ⟨b, hb⟩ : ∃ b, e ∈ entries b := by
      unfold documentedIn at he
      split at he
      · split at he
        · exact ⟨_, he⟩
        · cases he
      · cases he
    obtain ⟨hs', hstory'⟩ := hs.take hb hstep
    rw [List.append_assoc] at hs'
    exact ⟨hs', hstory'.trans hstory⟩
  exact hrun

/-- An item of the list. -/
theorem Fielded.item {items : List (List (Block (List Inline)))}
    (h : Fielded (items.flatMap documentedIn) (items.filter tellsExpected) d)
    {item : List (Block (List Inline))} (htake : takeItem? d item = some d') :
    Fielded ((items ++ [item]).flatMap documentedIn) ((items ++ [item]).filter tellsExpected) d' ∧
      story d' = story d := by
  rw [List.flatMap_append, List.flatMap_singleton, List.filter_append]
  rw [takeItem_eq] at htake
  split at htake
  · next hitem =>
    obtain ⟨p, hp, rfl⟩ := Option.map_eq_some_iff.mp htake
    rw [documentedIn_nil hitem, List.append_nil, List.filter_cons_of_pos hitem, List.filter_nil]
    refine ⟨⟨h.named, h.entry, h.once, ?_, ?_⟩, rfl⟩
    · intro item' hitem'
      rcases List.mem_append.mp hitem' with hitem' | hitem'
      · exact h.result item' hitem'
      · rw [List.mem_singleton.mp hitem']
        exact ⟨p, hp, expectation_keeps hitem hp⟩
    · rw [List.getLast?_concat, Option.bind_some, hp]
  · next hitem =>
    rw [List.filter_cons_of_neg hitem, List.filter_nil, List.append_nil]
    exact h.takeAll htake

/-- The items of the list. -/
theorem Fielded.items {items : List (List (Block (List Inline)))} (h : Fielded [] [] d)
    (htake : items.foldlM takeItem? d = some d') :
    Fielded (items.flatMap documentedIn) (items.filter tellsExpected) d' ∧ story d' = story d := by
  let P (done : List (List (Block (List Inline)))) (s : Documentation) : Prop :=
    Fielded (done.flatMap documentedIn) (done.filter tellsExpected) s ∧ story s = story d
  have hrun : P ([] ++ items) d' := by
    refine foldlM_keeps ?_ htake ⟨h, rfl⟩
    intro done item s s' _ ⟨hs, hstory⟩ hstep
    obtain ⟨hs', hstory'⟩ := hs.item hstep
    exact ⟨hs', hstory'.trans hstory⟩
  exact hrun

/-! The blocks. -/

/-- Takes a block as one that is told. -/
def tell (d : Documentation) (b : Block (List Inline)) : Documentation :=
  match b with
  | .paragraph content =>
    if d.summary.isNone then { d with summary := some content }
    else { d with discussion := d.discussion ++ [discussed b] }
  | _ => { d with discussion := d.discussion ++ [discussed b] }

theorem takeBlocks_tell (d : Documentation) {b : Block (List Inline)} {rest : Document}
    (h : ∀ start items, b = .list start items → rest ≠ []) :
    takeBlocks? d (b :: rest) = takeBlocks? (d.tell b) rest := by
  cases b with
  | list start items =>
    have hrest : rest.isEmpty = false := by
      rw [List.isEmpty_eq_false_iff]
      exact h start items rfl
    rw [takeBlocks?, hrest]
    rfl
  | _ => rfl

theorem takeBlocks_fields (d : Documentation) (start : Option Nat)
    (items : List (List (Block (List Inline)))) :
    takeBlocks? d [.list start items] = items.foldlM takeItem? d := by
  rw [takeBlocks?, List.isEmpty_nil, if_pos rfl]
  exact Option.bind_fun_some _

theorem Told.tell {body : Document} (h : Told body d) (b : Block (List Inline)) :
    Told (body ++ [b]) (d.tell b) := by
  have hdiscuss (hb : isParagraph b = false ∨ d.summary ≠ none)
      (htell : d.tell b = { d with discussion := d.discussion ++ [discussed b] }) :
      Told (body ++ [b]) (d.tell b) := by
    rw [htell]
    rcases h with ⟨hnone, hsummary, hdiscussion⟩ |
      ⟨before, content, after, rfl, hbefore, hsummary, hdiscussion⟩
    · left
      refine ⟨?_, hsummary, ?_⟩
      · intro c hc
        rcases List.mem_append.mp hc with hc | hc
        · exact hnone c hc
        · rw [List.mem_singleton.mp hc]
          exact hb.resolve_right fun h => h hsummary
      · rw [hdiscussion, List.map_append, List.map_singleton]
    · right
      refine ⟨before, content, after ++ [b], ?_, hbefore, hsummary, ?_⟩
      · rw [List.append_assoc, List.cons_append]
      · show d.discussion ++ [b].map discussed = (before ++ (after ++ [b])).map discussed
        rw [hdiscussion, ← List.append_assoc]
        exact List.map_append.symm
  -- the first paragraph is told apart by the summary, which there is none before it
  cases b with
  | paragraph content =>
    by_cases hsummary : d.summary = none
    · rcases h with ⟨hnone, -, hdiscussion⟩ | ⟨_, _, _, _, _, hsome, _⟩
      · right
        rw [Documentation.tell, hsummary]
        refine ⟨body, content, [], rfl, hnone, rfl, ?_⟩
        rw [List.append_nil]
        exact hdiscussion
      · rw [hsummary] at hsome
        cases hsome
    · apply hdiscuss (.inr hsummary)
      rw [Documentation.tell, if_neg (by rwa [Option.isNone_iff_eq_none])]
  | _ => exact hdiscuss (.inl rfl) rfl

theorem tell_comment (d : Documentation) (b : Block (List Inline)) :
    (d.tell b).comment = d.comment := by
  unfold Documentation.tell
  split
  · split <;> rfl
  · rfl

theorem Fielded.tell (h : Fielded [] [] d) (b : Block (List Inline)) : Fielded [] [] (d.tell b) := by
  have hfields : (d.tell b).variables = d.variables ∧ (d.tell b).expects = d.expects := by
    unfold Documentation.tell
    split
    · split <;> exact ⟨rfl, rfl⟩
    · exact ⟨rfl, rfl⟩
  obtain ⟨hvariables, hexpects⟩ := hfields
  refine ⟨h.named, ?_, ?_, h.result, ?_⟩
  · rw [hvariables]
    exact h.entry
  · rw [hvariables]
    exact h.once
  · rw [hexpects]
    exact h.expected

/-- Taking the blocks of a document. -/
theorem takeBlocks_splits {document done : Document} (h : takeBlocks? d document = some d')
    (htold : Told done d) (hfielded : Fielded [] [] d) :
    d'.comment = d.comment ∧ ∃ body items, Ends document body items ∧ Told (done ++ body) d' ∧
      Fielded (items.flatMap documentedIn) (items.filter tellsExpected) d' := by
  induction document generalizing done d with
  | nil =>
    cases h
    refine ⟨rfl, [], [], .inl ⟨rfl, rfl, by simp⟩, ?_, hfielded⟩
    rwa [List.append_nil]
  | cons b rest ih =>
    -- only a list that nothing follows holds fields, all other blocks are told
    by_cases hlast : ∃ start items, b = .list start items ∧ rest = []
    · obtain ⟨start, items, rfl, rfl⟩ := hlast
      rw [takeBlocks_fields] at h
      obtain ⟨hitems, hstory⟩ := hfielded.items h
      refine ⟨congrArg (·.1) hstory, [], items, .inr ⟨start, rfl⟩, ?_, hitems⟩
      rw [List.append_nil]
      exact htold.congr hstory
    · rw [takeBlocks_tell d fun start items hb hrest => hlast ⟨start, items, hb, hrest⟩] at h
      obtain ⟨hcomment, body, items, hends, hbody, hitems⟩ :=
        ih h (htold.tell b) (hfielded.tell b)
      rw [List.append_assoc, List.singleton_append] at hbody
      refine ⟨hcomment.trans (tell_comment d b), b :: body, items, ?_, hbody, hitems⟩
      rcases hends with ⟨rfl, rfl, hlist⟩ | ⟨start, rfl⟩
      · refine .inl ⟨rfl, rfl, ?_⟩
        intro start items hend
        cases rest with
        | nil =>
          cases hend
          exact hlast ⟨start, items, rfl, rfl⟩
        | cons c rest => exact hlist start items hend
      · exact .inr ⟨start, rfl⟩

/-- Splitting a comment keeps its blocks but those of a list at its end, and of that list the
fields, whatever blocks are found in a comment. -/
theorem comment_splits {parse : Bytes → Document} {comment : Bytes} {d : Documentation}
    (h : ofCommentBy? parse comment = some d) :
    d.comment = comment ∧ ∃ body items, Ends (parse comment) body items ∧ Told body d ∧
      Fielded (items.flatMap documentedIn) (items.filter tellsExpected) d := by
  have htold : Told [] ⟨comment, none, [], [], none⟩ := .inl ⟨by simp, rfl, rfl⟩
  have hfielded : Fielded [] [] ⟨comment, none, [], [], none⟩ :=
    ⟨by simp, fun name => rfl, .nil, by simp, rfl⟩
  exact takeBlocks_splits h htold hfielded

/-- A comment with a summary, a discussion and both kinds of fields. -/
def sumsComment : Bytes :=
  "Sums things.\n\nAt length.\n\n- Variables:\n  - s: the sum\n- Expects: s is PosInt\n"

theorem comment_splits_sums :
    ∃ d, ofComment? sumsComment = some d ∧ d.comment = sumsComment ∧
      ∃ body items, Ends (parse sumsComment) body items ∧ Told body d ∧
        Fielded (items.flatMap documentedIn) (items.filter tellsExpected) d := by
  have hsome : (ofComment? sumsComment).isSome = true := by decide +kernel
  obtain ⟨d, hd⟩ := Option.isSome_iff_exists.mp hsome
  exact ⟨d, hd, comment_splits hd⟩

/-- A comment that ends in a list without fields. -/
def noteComment : Bytes := "Sums things.\n\n- a note\n"

/-- The items of a list. -/
def itemsOf : Block (List Inline) → List (List (Block (List Inline)))
  | .list _ items => items
  | _ => []

/-- An item that is no field is nowhere in the documentation. -/
theorem item_passed_over :
    ∃ d body start item, ofComment? noteComment = some d ∧
      parse noteComment = body ++ [.list start [item]] ∧ Block.writtenAll item = "a note" ∧
      d.discussion = [] ∧ d.variables = [] ∧ d.expects = none := by
  have hparts : (ofComment? noteComment).map (fun d => (d.discussion.length, d.variables.length,
      d.expects.isSome)) = some (0, 0, false) := by decide +kernel
  have hitems : (parse noteComment).getLast?.map (fun b => (itemsOf b).map Block.writtenAll) =
      some [Bytes.ofString "a note"] := by decide +kernel
  obtain ⟨d, hd, hempty⟩ := Option.map_eq_some_iff.mp hparts
  obtain ⟨last, hlast, hnote⟩ := Option.map_eq_some_iff.mp hitems
  obtain ⟨item, hitem, htext⟩ := List.map_eq_singleton_iff.mp hnote
  obtain ⟨start, hlist⟩ : ∃ start, last = .list start [item] := by
    cases last with
    | list start items =>
      obtain rfl : items = [item] := hitem
      exact ⟨start, rfl⟩
    | _ => cases hitem
  obtain ⟨hdiscussion, hrest⟩ := Prod.mk.inj hempty
  obtain ⟨hvariables, hexpects⟩ := Prod.mk.inj hrest
  refine ⟨d, (parse noteComment).dropLast, start, item, hd, ?_, htext, ?_, ?_, ?_⟩
  · rw [← hlist]
    exact (List.dropLast_append_getLast? last hlast).symm
  · exact List.length_eq_zero_iff.mp hdiscussion
  · exact List.length_eq_zero_iff.mp hvariables
  · exact Option.isNone_iff_eq_none.mp (Option.isSome_eq_false_iff.mp hexpects)

end Documentation
end Signum
