/-
# ChapterCheck.Proofs.Frame -- what a look at one node owes to a node that it holds

A look at a node (`Role.look`) finds something of each node that it holds (`Role.share`), under the
steps that lead there, and the rest of what it finds has nothing to do with that node. The main
statement is `Leads.differs`: when another node is put in the place of the one that is held, the
share of the old one gives way to that of the new one, and what is found in front of it and behind
it stays.

The marks of a quoted run are looked at twice, so they have no share in one piece; they are left out
here.
-/
import ChapterCheck.Proofs.Put

namespace ChapterCheck

open Json Grammar

/-! ## Surveys that differ in one place -/

/-- **`Differs`** -- two surveys are the same but for what they find at and under `inner`, which
stands in a row: `part` in the one and `part'` in the other. -/
def Survey.Differs (inner : Path) (part part' s s' : Survey) : Prop :=
  ∃ before after, s = before ++ Survey.under inner part ++ after
    ∧ s' = before ++ Survey.under inner part' ++ after

namespace Survey

variable {inner : Path} {part part' s s' : Survey} {owner : Members} {key : String}
  {check : Value → Survey}

theorem under_append (base : Path) (s t : Survey) :
    Survey.under base (s ++ t) = Survey.under base s ++ Survey.under base t :=
  List.map_append

theorem under_nil (s : Survey) : Survey.under [] s = s := by
  have hid : Finding.under [] = id := funext Finding.under_nil
  rw [Survey.under, hid, List.map_id]

theorem under_under (p q : Path) (s : Survey) :
    Survey.under p (Survey.under q s) = Survey.under (p ++ q) s := by
  have hcomp : Finding.under p ∘ Finding.under q = Finding.under (p ++ q) :=
    funext (Finding.under_under p q)
  rw [Survey.under, Survey.under, List.map_map, hcomp]
  rfl

theorem Differs.self (part part' : Survey) : Differs [] part part' part part' := by
  refine ⟨[], [], ?_, ?_⟩ <;> rw [under_nil, List.nil_append, List.append_nil]

theorem Differs.append_left (t : Survey) (h : Differs inner part part' s s') :
    Differs inner part part' (t ++ s) (t ++ s') := by
  obtain ⟨before, after, rfl, rfl⟩ := h
  exact ⟨t ++ before, after, by simp only [List.append_assoc], by simp only [List.append_assoc]⟩

theorem Differs.under (base : Path) (h : Differs inner part part' s s') :
    Differs (base ++ inner) part part' (Survey.under base s) (Survey.under base s') := by
  obtain ⟨before, after, rfl, rfl⟩ := h
  refine ⟨Survey.under base before, Survey.under base after, ?_, ?_⟩
    <;> rw [under_append, under_append, under_under]

/-- A difference within the part that differs is a difference of the whole. -/
theorem Differs.trans {outer : Path} {mid mid' : Survey} (h : Differs inner part part' mid mid')
    (hmid : Differs outer mid mid' s s') : Differs (outer ++ inner) part part' s s' := by
  obtain ⟨first, last, rfl, rfl⟩ := hmid
  obtain ⟨before, after, heq, heq'⟩ := h.under outer
  refine ⟨first ++ before, after ++ last, ?_, ?_⟩
  · rw [heq]
    simp only [List.append_assoc]
  · rw [heq']
    simp only [List.append_assoc]

/-! ## The combinators -/

/-- The elements of an array are looked at one by one, each by itself. -/
theorem each_append_cons (check : Value → Survey) (before : List Value) (v : Value)
    (after : List Value) :
    each check (before ++ v :: after)
      = each check before ++ Survey.under [.index before.length] (check v)
        ++ (after.zipIdx (before.length + 1)).flatMap fun (w, place) =>
          Survey.under [.index place] (check w) := by
  simp only [each, List.zipIdx_append, List.zipIdx_cons, List.flatMap_append, List.flatMap_cons,
    Nat.zero_add, List.append_assoc]

theorem differs_each {items : List Value} {i : Nat} {u : Value} (hu : items[i]? = some u)
    (new : Value) :
    Differs [.index i] (check u) (check new) (each check items)
      (each check (items.modify i fun _ => new)) := by
  obtain ⟨hlt, rfl⟩ := List.getElem?_eq_some_iff.mp hu
  have hlength : (items.take i).length = i := List.length_take_of_le (Nat.le_of_lt hlt)
  have hitems : items = items.take i ++ items[i] :: items.drop (i + 1) := by
    rw [← List.drop_eq_getElem_cons hlt, List.take_append_drop]
  have hold := each_append_cons check (items.take i) items[i] (items.drop (i + 1))
  have hnew := each_append_cons check (items.take i) new (items.drop (i + 1))
  rw [hlength] at hold hnew
  rw [← hitems] at hold
  rw [List.modify_eq_take_cons_drop hlt]
  exact ⟨_, _, hold, hnew⟩

end Survey

/-- What two steps lead to is an element of an array. -/
theorem exists_items_of_resolve? {v u : Value} {key : String} {i : Nat}
    (h : v.resolve? [.field key, .index i] = some u) :
    ∃ (members : Members) (items : List Value), v = .object members
      ∧ members.get? key = some (.array items) ∧ items[i]? = some u := by
  obtain ⟨w, hw, hu⟩ := Option.bind_eq_some_iff.mp h
  obtain ⟨u', hu', hu⟩ := Option.bind_eq_some_iff.mp hu
  obtain rfl := Option.some.inj hu
  cases v with
  | object members =>
    cases w with
    | array items => exact ⟨members, items, rfl, hw, hu'⟩
    | _ => cases hu'
  | _ => cases hw

/-- The members in which another element stands in the array under a key. -/
def Json.Members.putItem (key : String) (i : Nat) (new : Value) (owner : Members) : Members :=
  Members.modify key (fun w => w.put [.index i] new) owner

theorem Json.Members.get?_putItem_of_ne {key other : String} (h : other ≠ key) (i : Nat)
    (new : Value) (owner : Members) :
    (putItem key i new owner).get? other = owner.get? other := by
  rw [putItem, get?_modify, if_neg h]

theorem Json.Members.get?_putItem {key : String} {owner : Members} {items : List Value}
    (h : owner.get? key = some (.array items)) (i : Nat) (new : Value) :
    (putItem key i new owner).get? key = some (.array (items.modify i fun _ => new)) := by
  have hput : (Value.array items).put [.index i] new = .array (items.modify i fun _ => new) := by
    simp [Value.put]
  rw [putItem, get?_modify, if_pos rfl, h, Option.map_some, hput]

theorem Json.Value.put_two (owner : Members) (key : String) (i : Nat) (new : Value) :
    (Value.object owner).put [.field key, .index i] new
      = .object (Members.putItem key i new owner) :=
  rfl

theorem Survey.filled_of_ne_nil {owner : Members} {key : String} {items : List Value}
    (hget : owner.get? key = some (.array items)) (hne : items ≠ []) (check : Value → Survey) :
    filled owner key check = Survey.under [.field key] (each check items) := by
  rcases filled_cases owner key check with ⟨others, hothers, -, heq⟩ | ⟨hunfilled, -⟩
  · obtain rfl : others = items := by simpa [hget] using hothers.symm
    exact heq
  · exact absurd (hunfilled items hget) hne

/-- Where something looks at the elements of an array in a field one by one, an element that gives
way to another makes no difference but its own. -/
theorem Survey.differs_putItem {owner : Members} {key : String} {i : Nat} {u : Value}
    {check : Value → Survey} (found : Members → Survey)
    (hfound : ∀ {owner : Members} {items : List Value}, owner.get? key = some (.array items) →
      items ≠ [] → found owner = Survey.under [.field key] (each check items))
    (hu : (Value.object owner).resolve? [.field key, .index i] = some u) (new : Value) :
    Differs [.field key, .index i] (check u) (check new) (found owner)
      (found (Members.putItem key i new owner)) := by
  obtain ⟨_, items, ⟨⟩, hget, hi⟩ := exists_items_of_resolve? hu
  have hne : items ≠ [] := List.ne_nil_of_mem (List.mem_of_getElem? hi)
  have hne' : items.modify i (fun _ => new) ≠ [] := mt List.modify_eq_nil_iff.mp hne
  rw [hfound hget hne, hfound (Members.get?_putItem hget i new) hne']
  exact (differs_each hi new).under [.field key]

theorem Survey.differs_filled {owner : Members} {key : String} {i : Nat} {u : Value}
    {check : Value → Survey} (hu : (Value.object owner).resolve? [.field key, .index i] = some u)
    (new : Value) :
    Differs [.field key, .index i] (check u) (check new) (filled owner key check)
      (filled (Members.putItem key i new owner) key check) :=
  differs_putItem (filled · key check) (fun hget hne => filled_of_ne_nil hget hne check) hu new

theorem Json.Members.has_putItem (key : String) (i : Nat) (new : Value) (owner : Members)
    (other : String) : (putItem key i new owner).has other = owner.has other := by
  rw [has, has, putItem, get?_modify]
  split
  · rename_i heq
    rw [heq, Option.isSome_map]
  · rfl

theorem Survey.word_putItem_of_ne (α : Type) [Tagged α] {key word : String} (h : word ≠ key)
    (i : Nat) (new : Value) (owner : Members) :
    Survey.word α (Members.putItem key i new owner) word = Survey.word α owner word := by
  rw [Survey.word, Survey.word, Members.get?_putItem_of_ne h]

/-! ## What a node finds, and what the node above makes of it -/

/-- The look at the image of a figure. -/
def Block.imageSurvey (v : Value) : Survey :=
  Survey.object v fun img => Survey.require img "src"

/-- **`Role.look`** -- what a look at a node in a role finds. -/
def Role.look : Role → Value → Survey
  | .chapter => Chapter.survey
  | .block _ => Block.survey
  | .listItem _ => Block.listItem
  | .row _ => Block.tableRow
  | .cell _ => Block.tableCell
  | .quotedBlock => Block.quotedParagraph
  | .keyFigure => Block.keyFigure
  | .image => Block.imageSurvey
  | .run false => Run.survey
  | .run true => Run.quotedSurvey
  | .mark _ => Run.markSurvey

/-- **`Role.share`** -- what a look at the node above finds of a node: a block is left to the walk,
everything else is looked at in passing. -/
def Role.share : Role → Value → Survey
  | .block _ => Survey.block
  | role => role.look

namespace Block

theorem survey_of_named {block : Members} {kind : BlockKind} (h : Named block (Tagged.tag kind)) :
    survey (.object block) = contract block kind := by
  rw [survey, Survey.object, kind?_eq_some_iff.mpr h]

/-- The kind of a block is not changed by what is put elsewhere. -/
theorem named_putItem {block : Members} {word key : String} (h : Named block word)
    (hkey : "type" ≠ key) (i : Nat) (new : Value) : Named (Members.putItem key i new block) word :=
  (Members.get?_putItem_of_ne hkey i new block).trans h

/-- A contract that ends with an array in a field differs in an element of that array alone. What it
asks for before that, its `head`, must have nothing to do with the field. -/
theorem differs_contract (kind : BlockKind) (head : Members → Survey) {block : Members}
    {key : String} {i : Nat} {u : Value} {check : Value → Survey}
    (hcontract : ∀ block, contract block kind = head block ++ Survey.filled block key check)
    (hhead : ∀ new, head (Members.putItem key i new block) = head block)
    (hnamed : Named block (Tagged.tag kind)) (hkey : "type" ≠ key)
    (hu : (Value.object block).resolve? [.field key, .index i] = some u) (new : Value) :
    Survey.Differs [.field key, .index i] (check u) (check new) (survey (.object block))
      (survey ((Value.object block).put [.field key, .index i] new)) := by
  rw [Value.put_two, survey_of_named hnamed, survey_of_named (named_putItem hnamed hkey i new),
    hcontract, hcontract, hhead]
  exact (Survey.differs_filled hu new).append_left (head block)

theorem listItem_of_ne_nil {items : List Value} (h : items ≠ []) :
    listItem (.array items) = Survey.each Survey.block items := by
  obtain ⟨first, rest, rfl⟩ := List.exists_cons_of_ne_nil h
  rfl

theorem differs_listItem {item u : Value} {j : Nat} (hu : item.resolve? [.index j] = some u)
    (new : Value) :
    Survey.Differs [.index j] (Survey.block u) (Survey.block new) (listItem item)
      (listItem (item.put [.index j] new)) := by
  cases item with
  | array items =>
    have hj : items[j]? = some u := by
      rw [← hu, ← asArray?_getElem?]
      rfl
    have hput : (Value.array items).put [.index j] new = .array (items.modify j fun _ => new) := by
      simp [Value.put]
    have hne : items ≠ [] := List.ne_nil_of_mem (List.mem_of_getElem? hj)
    have hne' : items.modify j (fun _ => new) ≠ [] := mt List.modify_eq_nil_iff.mp hne
    rw [hput, listItem_of_ne_nil hne, listItem_of_ne_nil hne']
    exact Survey.differs_each hj new
  | _ => cases hu

theorem differs_tableCell {cell u : Value} {i : Nat}
    (hu : cell.resolve? [.field "blocks", .index i] = some u) (new : Value) :
    Survey.Differs [.field "blocks", .index i] (Survey.block u) (Survey.block new) (tableCell cell)
      (tableCell (cell.put [.field "blocks", .index i] new)) := by
  obtain ⟨members, -, rfl, -⟩ := exists_items_of_resolve? hu
  exact Survey.differs_filled hu new

theorem differs_tableRow {row u : Value} {c : Nat}
    (hu : row.resolve? [.field "cells", .index c] = some u) (new : Value) :
    Survey.Differs [.field "cells", .index c] (tableCell u) (tableCell new) (tableRow row)
      (tableRow (row.put [.field "cells", .index c] new)) := by
  obtain ⟨members, -, rfl, -⟩ := exists_items_of_resolve? hu
  exact Survey.differs_filled hu new

theorem quotedParagraph_of_named {block : Members} (h : Named block "paragraph") :
    quotedParagraph (.object block) = Survey.filled block "inlines" Run.quotedSurvey := by
  rw [quotedParagraph, Survey.object]
  exact if_pos (kind?_eq_some_iff.mpr h)

theorem differs_quotedParagraph {block : Members} {u : Value} {i : Nat}
    (hnamed : Named block "paragraph")
    (hu : (Value.object block).resolve? [.field "inlines", .index i] = some u) (new : Value) :
    Survey.Differs [.field "inlines", .index i] (Run.quotedSurvey u) (Run.quotedSurvey new)
      (quotedParagraph (.object block))
      (quotedParagraph ((Value.object block).put [.field "inlines", .index i] new)) := by
  rw [Value.put_two, quotedParagraph_of_named hnamed,
    quotedParagraph_of_named (named_putItem hnamed (by decide) i new)]
  exact Survey.differs_filled hu new

theorem contract_figure {block : Members} {img : Value} (h : block.get? "img" = some img) :
    contract block .figure = Survey.under [.field "img"] (imageSurvey img) := by
  rw [contract, h]
  cases img <;> rfl

theorem differs_figure {block : Members} {u : Value} (hnamed : Named block "figure")
    (hu : (Value.object block).resolve? [.field "img"] = some u) (new : Value) :
    Survey.Differs [.field "img"] (imageSurvey u) (imageSurvey new) (survey (.object block))
      (survey ((Value.object block).put [.field "img"] new)) := by
  obtain ⟨img, himg, hu⟩ := Option.bind_eq_some_iff.mp hu
  obtain rfl := Option.some.inj hu
  change block.get? "img" = some img at himg
  have hput : (Value.object block).put [.field "img"] new
      = .object (Members.modify "img" (fun _ => new) block) := by
    simp [Value.put]
  have hnew : Members.get? (Members.modify "img" (fun _ => new) block) "img" = some new := by
    rw [Members.get?_modify, if_pos rfl, himg, Option.map_some]
  have htype : Named (Members.modify "img" (fun _ => new) block) "figure" := by
    show Members.get? _ _ = _
    rw [Members.get?_modify, if_neg (by decide)]
    exact hnamed
  have hold : survey (.object block) = contract block .figure := survey_of_named hnamed
  have hafter : survey (.object (Members.modify "img" (fun _ => new) block))
      = contract (Members.modify "img" (fun _ => new) block) .figure := survey_of_named htype
  rw [hput, hold, hafter, contract_figure himg, contract_figure hnew]
  exact (Survey.Differs.self _ _).under [.field "img"]

end Block

/-- **`differs`** -- what a look finds of a node that is held is the share of that node, and all
else that it finds is the same whatever stands there. -/
theorem Leads.differs {role next : Role} {w u : Value} {steps : Path} (h : Leads role w steps next)
    (hnext : ∀ quoted, next ≠ .mark quoted) (hu : w.resolve? steps = some u) (new : Value) :
    Survey.Differs steps (next.share u) (next.share new) (role.look w)
      (role.look (w.put steps new)) := by
  cases h with
  | blockquote hnamed =>
    exact Block.differs_contract .blockquote (fun _ => []) (fun _ => rfl) (fun _ => rfl) hnamed
      (by decide) hu new
  | callout hnamed =>
    exact Block.differs_contract .callout (Survey.word Tone · "tone") (fun _ => rfl)
      (fun new => Survey.word_putItem_of_ne Tone (by decide) _ new _) hnamed (by decide) hu new
  | list hnamed =>
    exact Block.differs_contract .list (Survey.word ListStyle · "listType") (fun _ => rfl)
      (fun new => Survey.word_putItem_of_ne ListStyle (by decide) _ new _) hnamed (by decide) hu new
  | listItem => exact Block.differs_listItem hu new
  | table hnamed =>
    exact Block.differs_contract .table (fun _ => []) (fun _ => rfl) (fun _ => rfl) hnamed
      (by decide) hu new
  | row => exact Block.differs_tableRow hu new
  | cell => exact Block.differs_tableCell hu new
  | engineQuote hnamed =>
    refine Block.differs_contract .engineQuote
      (fun block => Block.engineSurvey block
        ++ Block.titleSurvey (Block.engine? block) (block.get? "title"))
      (fun _ => rfl) ?_ hnamed (by decide) hu new
    intro new
    have hengine := Members.get?_putItem_of_ne (show "engine" ≠ "blocks" by decide)
    have htitle := Members.get?_putItem_of_ne (show "title" ≠ "blocks" by decide)
    simp only [Block.engineSurvey, Block.engine?, hengine, htitle]
  | paragraph hnamed =>
    exact Block.differs_contract .paragraph (fun _ => []) (fun _ => rfl) (fun _ => rfl) hnamed
      (by decide) hu new
  | quotedParagraph hnamed => exact Block.differs_quotedParagraph hnamed hu new
  | run => exact absurd rfl (hnext _)
  | kpiGrid hnamed =>
    exact Block.differs_contract .kpiGrid (fun _ => []) (fun _ => rfl) (fun _ => rfl) hnamed
      (by decide) hu new
  | figure hnamed => exact Block.differs_figure hnamed hu new

/-- **`mem_look`** -- what is found of a node that is held, a look at the node above finds. -/
theorem Leads.mem_look {role next : Role} {w u : Value} {steps : Path} {f : Finding}
    (h : Leads role w steps next) (hu : w.resolve? steps = some u) (hf : f ∈ next.share u) :
    f.under steps ∈ role.look w := by
  have hshare : f.under steps ∈ Survey.under steps (next.share u) :=
    Survey.mem_under.mpr ⟨f, hf, rfl⟩
  by_cases hmark : ∃ quoted, next = .mark quoted
  · -- The marks of a quoted run are looked at twice, first by the contract.
    obtain ⟨quoted, rfl⟩ := hmark
    cases h with
    | @run _ k run =>
      obtain ⟨members, marks, rfl, hget, hk⟩ := exists_items_of_resolve? hu
      have hmarks : f.under [.field "marks", .index k] ∈ Run.marksSurvey members := by
        rw [Run.marksSurvey, hget]
        exact Survey.mem_under_each.mpr ⟨k, u, hk, f, hf, rfl⟩
      have hrun : f.under [.field "marks", .index k] ∈ Run.survey (.object members) :=
        List.mem_append_right _ hmarks
      cases quoted with
      | false => exact hrun
      | true => exact List.mem_append_left _ hrun
  · have hdiffers := h.differs (fun quoted hquoted => hmark ⟨quoted, hquoted⟩) hu u
    obtain ⟨before, after, hlook, -⟩ := hdiffers
    rw [hlook]
    exact List.mem_append_left _ (List.mem_append_right _ hshare)

theorem Chapter.blocksSurvey_of_ne_nil {chapter : Members} {items : List Value}
    (hget : chapter.get? "blocks" = some (.array items)) (hne : items ≠ []) :
    blocksSurvey chapter = Survey.under [.field "blocks"] (Survey.each Survey.block items) := by
  obtain ⟨first, rest, rfl⟩ := List.exists_cons_of_ne_nil hne
  rw [blocksSurvey, hget]

/-- The same for a chapter and the blocks of level one. -/
theorem Chapter.differs_survey {v u : Value} {i : Nat}
    (hu : v.resolve? [.field "blocks", .index i] = some u) (new : Value) :
    Survey.Differs [.field "blocks", .index i] (Survey.block u) (Survey.block new) (survey v)
      (survey (v.put [.field "blocks", .index i] new)) := by
  obtain ⟨chapter, -, rfl, -⟩ := exists_items_of_resolve? hu
  have hheader : headerSurvey (Members.putItem "blocks" i new chapter) = headerSurvey chapter := by
    simp only [headerSurvey, Members.has_putItem]
  have hblocks : Survey.Differs [.field "blocks", .index i] (Survey.block u) (Survey.block new)
      (blocksSurvey chapter) (blocksSurvey (Members.putItem "blocks" i new chapter)) :=
    Survey.differs_putItem blocksSurvey blocksSurvey_of_ne_nil hu new
  rw [Value.put_two, survey, survey, hheader]
  exact hblocks.append_left _

end ChapterCheck
