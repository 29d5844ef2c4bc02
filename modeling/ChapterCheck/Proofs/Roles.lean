/-
# ChapterCheck.Proofs.Roles -- what the nodes of a chapter are looked at as

Every node of a chapter that a contract speaks of has a `Role`: it is a block on some level, an item
of a list, a run of text, a mark. `Leads` gives the steps from a node in one role to the nodes that
it holds in others; `Stands` follows them from the top of a chapter. Neither knows of defects.

What stands at a place is the node that the place leads to (`Stands.node?_eq`), and the blocks that
stand on a level are those of `Chapter.blocksAt` (`Chapter.mem_blocksAt_iff`).
-/
import ChapterCheck.Nesting
import ChapterCheck.Proofs.Findings
import ChapterCheck.Proofs.Grammar

namespace ChapterCheck

open Json Grammar

/-! ## Roles -/

/-- What a node of a chapter is looked at as. The parts of a list or a table carry the level of the
blocks that they hold; runs and marks, whether they are in the quote of an engine. -/
inductive Role where
  | chapter
  | block (level : Nat)
  | listItem (level : Nat)
  | row (level : Nat)
  | cell (level : Nat)
  | quotedBlock
  | keyFigure
  | image
  | run (quoted : Bool)
  | mark (quoted : Bool)

/-- **`Leads`** -- some steps lead from a node in one role to a node in another. -/
inductive Leads : Role → Value → Path → Role → Prop
  | blockquote {level i : Nat} {block : Members} : Named block "blockquote" →
      Leads (.block level) (.object block) [.field "blocks", .index i] (.block (level + 1))
  | callout {level i : Nat} {block : Members} : Named block "callout" →
      Leads (.block level) (.object block) [.field "blocks", .index i] (.block (level + 1))
  | list {level i : Nat} {block : Members} : Named block "list" →
      Leads (.block level) (.object block) [.field "items", .index i] (.listItem (level + 1))
  | listItem {level j : Nat} {item : Value} : Leads (.listItem level) item [.index j] (.block level)
  | table {level r : Nat} {block : Members} : Named block "table" →
      Leads (.block level) (.object block) [.field "rows", .index r] (.row (level + 1))
  | row {level c : Nat} {row : Value} :
      Leads (.row level) row [.field "cells", .index c] (.cell level)
  | cell {level i : Nat} {cell : Value} :
      Leads (.cell level) cell [.field "blocks", .index i] (.block level)
  | engineQuote {level i : Nat} {block : Members} : Named block "engineQuote" →
      Leads (.block level) (.object block) [.field "blocks", .index i] .quotedBlock
  | paragraph {level i : Nat} {block : Members} : Named block "paragraph" →
      Leads (.block level) (.object block) [.field "inlines", .index i] (.run false)
  | quotedParagraph {i : Nat} {block : Members} : Named block "paragraph" →
      Leads .quotedBlock (.object block) [.field "inlines", .index i] (.run true)
  | run {quoted : Bool} {k : Nat} {run : Value} :
      Leads (.run quoted) run [.field "marks", .index k] (.mark quoted)
  | kpiGrid {level i : Nat} {block : Members} : Named block "kpiGrid" →
      Leads (.block level) (.object block) [.field "items", .index i] .keyFigure
  | figure {level : Nat} {block : Members} : Named block "figure" →
      Leads (.block level) (.object block) [.field "img"] .image

/-- **`Stands`** -- a node of a chapter, with its role and the path to it. Paths to the header begin
at the name `chapter`, paths to blocks at the field `blocks`. -/
inductive Stands (v : Value) : Role → Path → Value → Prop
  | chapter : Stands v .chapter [.field "chapter"] v
  | top {i : Nat} {b : Value} : v.resolve? [.field "blocks", .index i] = some b →
      Stands v (.block 1) [.field "blocks", .index i] b
  | step {role next : Role} {place steps : Path} {w u : Value} : Stands v role place w →
      Leads role w steps next → w.resolve? steps = some u → Stands v next (place ++ steps) u

/-! ## The node at a place -/

/-- **`Chapter.node?`** -- the node that the path of a diagnostic leads to. -/
def Chapter.node? (v : Value) : Path → Option Value
  | .field name :: rest =>
    if name = "chapter" then v.resolve? rest
    else if name = "blocks" then v.resolve? (.field name :: rest)
    else none
  | _ => none

/-- A place is followed step by step. -/
theorem Chapter.node?_append {v : Value} {place : Path} (hplace : place ≠ []) (rest : Path) :
    node? v (place ++ rest) = (node? v place).bind (·.resolve? rest) := by
  match place with
  | [] => exact absurd rfl hplace
  | .index _ :: _ => rfl
  | .field name :: inner =>
    show (if name = "chapter" then v.resolve? (inner ++ rest)
      else if name = "blocks" then v.resolve? (.field name :: inner ++ rest) else none) = _
    rw [node?]
    split
    · exact Value.resolve?_append v inner rest
    · split
      · exact Value.resolve?_append v (.field name :: inner) rest
      · rfl

theorem Chapter.ne_nil_of_node? {v w : Value} {place : Path} (h : node? v place = some w) :
    place ≠ [] := by
  rintro rfl
  cases h

/-- What stands at a place is what the place leads to. -/
theorem Stands.node?_eq {v w : Value} {role : Role} {place : Path} (h : Stands v role place w) :
    Chapter.node? v place = some w := by
  induction h with
  | chapter => rfl
  | top h => exact h
  | step _ _ hsteps ih => rw [Chapter.node?_append (Chapter.ne_nil_of_node? ih), ih, ← hsteps]; rfl

/-- What stands at a place in a role other than that of the chapter is found by going there from the
top. -/
theorem Stands.resolve?_eq {v w : Value} {role : Role} {place : Path} (h : Stands v role place w)
    (hrole : role ≠ .chapter) : v.resolve? place = some w := by
  induction h with
  | chapter => exact absurd rfl hrole
  | top h => exact h
  | step _ hleads hsteps ih =>
    have habove := ih (by rintro rfl; cases hleads)
    rw [Value.resolve?_append, habove, Option.bind_some, hsteps]

theorem Leads.ne_nil {role next : Role} {w : Value} {steps : Path} (h : Leads role w steps next) :
    steps ≠ [] := by
  cases h <;> exact List.cons_ne_nil _ _

/-- A place in a chapter lies one step below another place that leads somewhere, unless it is the
chapter itself. -/
theorem Stands.exists_above {v w : Value} {role : Role} {place : Path}
    (h : Stands v role place w) (hrole : role ≠ .chapter) :
    ∃ above last, place = above ++ [last] ∧ ∃ u, Chapter.node? v above = some u := by
  have hnode := h.node?_eq
  cases h with
  | chapter => exact absurd rfl hrole
  | @top i b h =>
    obtain ⟨u, hu, -⟩ := Option.bind_eq_some_iff.mp h
    refine ⟨[.field "blocks"], .index i, rfl, u, ?_⟩
    show (v.field? "blocks").bind (·.resolve? []) = some u
    exact Option.bind_eq_some_iff.mpr ⟨u, hu, rfl⟩
  | @step before _ outer steps x _ hstands hleads hsteps =>
    -- Without its last step, the way still goes on from a place that leads somewhere.
    obtain ⟨init, last, rfl⟩ := (List.eq_nil_or_concat steps).resolve_left hleads.ne_nil
    rw [List.concat_eq_append] at hnode ⊢
    have houter := Chapter.ne_nil_of_node? hstands.node?_eq
    rw [← List.append_assoc, Chapter.node?_append (List.append_ne_nil_of_left_ne_nil houter _)]
      at hnode
    obtain ⟨u, hu, -⟩ := Option.bind_eq_some_iff.mp hnode
    exact ⟨outer ++ init, last, (List.append_assoc _ _ _).symm, u, hu⟩

/-! ## The blocks on a level -/

theorem mem_placed {base place : Path} {items : List Value} {v : Value} :
    (place, v) ∈ placed base items ↔ ∃ i, items[i]? = some v ∧ place = base ++ [.index i] := by
  simp only [placed, List.mem_map, Prod.exists, List.mk_mem_zipIdx_iff_getElem?, Prod.mk.injEq]
  constructor
  · rintro ⟨_, i, hi, rfl, rfl⟩
    exact ⟨i, hi, rfl⟩
  · rintro ⟨i, hi, rfl⟩
    exact ⟨v, i, hi, rfl, rfl⟩

/-- The elements under a key are the nodes two steps down. -/
theorem elements_getElem? (v : Value) (key : String) (i : Nat) :
    (elements v key)[i]? = v.resolve? [.field key, .index i] := by
  simp only [elements, Value.resolve?, Value.step?, Value.item?]
  cases v.field? key with
  | none => rfl
  | some w =>
    rw [Option.bind_some, Option.bind_some, Option.bind_fun_some]
    cases w.asArray? <;> rfl

theorem elements_of_field? {v : Value} {key : String} {items : List Value}
    (h : v.field? key = some (.array items)) : elements v key = items := by
  rw [elements, h]
  rfl

theorem elements_of_unfilled {owner : Members} {key : String} (h : owner.Unfilled key) :
    elements (.object owner) key = [] := by
  show ((owner.get? key).bind Value.asArray?).getD [] = []
  cases hget : owner.get? key with
  | none => rfl
  | some w =>
    cases w with
    | array items => exact h items hget
    | _ => rfl

theorem asArray?_getElem? (v : Value) (i : Nat) :
    (v.asArray?.getD [])[i]? = v.resolve? [.index i] := by
  simp only [Value.resolve?, Value.step?, Value.item?, Option.bind_fun_some]
  cases v.asArray? <;> rfl

/-- **`Block.Holds`** -- the steps from a block to the blocks that it holds. -/
inductive Block.Holds (block : Members) : Path → Prop
  | blockquote (i : Nat) : Named block "blockquote" → Holds block [.field "blocks", .index i]
  | callout (i : Nat) : Named block "callout" → Holds block [.field "blocks", .index i]
  | list (i j : Nat) : Named block "list" → Holds block [.field "items", .index i, .index j]
  | table (r c i : Nat) : Named block "table" →
      Holds block [.field "rows", .index r, .field "cells", .index c, .field "blocks", .index i]

theorem mem_placed_elements {base place : Path} {w u : Value} {key : String} :
    (place, u) ∈ placed base (elements w key) ↔
      ∃ i, w.resolve? [.field key, .index i] = some u ∧ place = base ++ [.index i] := by
  simp only [mem_placed, elements_getElem?]

theorem resolve?_two {w x u : Value} {key : String} {i : Nat} {rest : Path}
    (hx : w.resolve? [.field key, .index i] = some x) (hu : x.resolve? rest = some u) :
    w.resolve? (.field key :: .index i :: rest) = some u := by
  show w.resolve? ([.field key, .index i] ++ rest) = some u
  rw [Value.resolve?_append, hx, Option.bind_some, hu]

theorem exists_of_resolve?_two {w u : Value} {key : String} {i : Nat} {rest : Path}
    (h : w.resolve? (.field key :: .index i :: rest) = some u) :
    ∃ x, w.resolve? [.field key, .index i] = some x ∧ x.resolve? rest = some u := by
  change w.resolve? ([.field key, .index i] ++ rest) = some u at h
  rw [Value.resolve?_append] at h
  exact Option.bind_eq_some_iff.mp h

/-- The blocks that a block holds are the nodes that its kind leads to. -/
theorem Block.mem_nested_iff {w u : Value} {inner : Path} :
    (inner, u) ∈ nested w ↔
      ∃ block, w = .object block ∧ Holds block inner ∧ w.resolve? inner = some u := by
  constructor
  · intro h
    have kind_of {kind : BlockKind} (hkind : w.asObject?.bind kind? = some kind) :
        ∃ block, w = .object block ∧ Named block (Tagged.tag kind) := by
      cases w with
      | object block => exact ⟨block, rfl, kind?_eq_some_iff.mp hkind⟩
      | _ => cases hkind
    unfold nested at h
    split at h
    · rename_i hkind
      obtain ⟨block, hw, hnamed⟩ := kind_of hkind
      obtain ⟨i, hi, rfl⟩ := mem_placed_elements.mp h
      exact ⟨block, hw, .blockquote i hnamed, hi⟩
    · rename_i hkind
      obtain ⟨block, hw, hnamed⟩ := kind_of hkind
      obtain ⟨i, hi, rfl⟩ := mem_placed_elements.mp h
      exact ⟨block, hw, .callout i hnamed, hi⟩
    · rename_i hkind
      obtain ⟨block, hw, hnamed⟩ := kind_of hkind
      simp only [List.mem_flatMap, Prod.exists, List.mk_mem_zipIdx_iff_getElem?,
        elements_getElem?, mem_placed, asArray?_getElem?] at h
      obtain ⟨item, i, hitem, j, hu, rfl⟩ := h
      exact ⟨block, hw, .list i j hnamed, resolve?_two hitem hu⟩
    · rename_i hkind
      obtain ⟨block, hw, hnamed⟩ := kind_of hkind
      simp only [List.mem_flatMap, Prod.exists, List.mk_mem_zipIdx_iff_getElem?,
        elements_getElem?, mem_placed_elements] at h
      obtain ⟨row, r, hrow, cell, c, hcell, i, hu, rfl⟩ := h
      exact ⟨block, hw, .table r c i hnamed, resolve?_two hrow (resolve?_two hcell hu)⟩
    · cases h
  · rintro ⟨block, rfl, hholds, hu⟩
    have nested_eq (kind : BlockKind) (hnamed : Named block (Tagged.tag kind)) :
        (Value.object block).asObject?.bind kind? = some kind :=
      kind?_eq_some_iff.mpr hnamed
    cases hholds with
    | blockquote i hnamed =>
      rw [nested, nested_eq .blockquote hnamed]
      exact mem_placed_elements.mpr ⟨i, hu, rfl⟩
    | callout i hnamed =>
      rw [nested, nested_eq .callout hnamed]
      exact mem_placed_elements.mpr ⟨i, hu, rfl⟩
    | list i j hnamed =>
      rw [nested, nested_eq .list hnamed]
      obtain ⟨item, hitem, hu⟩ := exists_of_resolve?_two hu
      simp only [List.mem_flatMap, Prod.exists, List.mk_mem_zipIdx_iff_getElem?,
        elements_getElem?, mem_placed, asArray?_getElem?]
      exact ⟨item, i, hitem, j, hu, rfl⟩
    | table r c i hnamed =>
      rw [nested, nested_eq .table hnamed]
      obtain ⟨row, hrow, hu⟩ := exists_of_resolve?_two hu
      obtain ⟨cell, hcell, hu⟩ := exists_of_resolve?_two hu
      simp only [List.mem_flatMap, Prod.exists, List.mk_mem_zipIdx_iff_getElem?,
        elements_getElem?, mem_placed_elements]
      exact ⟨row, r, hrow, cell, c, hcell, i, hu, rfl⟩

/-- A block that stands on a level is at the top of the chapter or held by a block one level up. -/
theorem Stands.block_cases {v b : Value} {level : Nat} {place : Path}
    (h : Stands v (.block level) place b) :
    (level = 1 ∧ ∃ i, place = [.field "blocks", .index i] ∧ v.resolve? place = some b)
    ∨ ∃ above outer block inner, level = above + 1 ∧ place = outer ++ inner
      ∧ Stands v (.block above) outer (.object block) ∧ Block.Holds block inner
      ∧ (Value.object block).resolve? inner = some b := by
  cases h with
  | @top i b h => exact .inl ⟨rfl, i, rfl, h⟩
  | @step _ _ outer _ w _ hstands hleads hsteps =>
    refine .inr ?_
    -- The steps into an item, a row or a cell are put together into one way from block to block.
    cases hleads with
    | blockquote hnamed => exact ⟨_, outer, _, _, rfl, rfl, hstands, .blockquote _ hnamed, hsteps⟩
    | callout hnamed => exact ⟨_, outer, _, _, rfl, rfl, hstands, .callout _ hnamed, hsteps⟩
    | listItem =>
      cases hstands with
      | step hstands hleads hitem =>
        cases hleads with
        | list hnamed =>
          exact ⟨_, _, _, _, rfl, List.append_assoc _ _ _, hstands, .list _ _ hnamed,
            resolve?_two hitem hsteps⟩
    | cell =>
      cases hstands with
      | step hstands hleads hcell =>
        cases hleads with
        | row =>
          cases hstands with
          | step hstands hleads hrow =>
            cases hleads with
            | table hnamed =>
              refine ⟨_, _, _, _, rfl, ?_, hstands, .table _ _ _ hnamed,
                resolve?_two hrow (resolve?_two hcell hsteps)⟩
              simp only [List.append_assoc, List.cons_append, List.nil_append]

/-- Every level takes two steps or more. -/
theorem Stands.two_mul_level_le {v b : Value} {level : Nat} {place : Path}
    (h : Stands v (.block level) place b) : 2 * level ≤ place.length := by
  -- To the blocks of the chapter, as from one block to the next, it takes a field and an index.
  induction level generalizing place b with
  | zero => omega
  | succ level ih =>
    rcases h.block_cases with ⟨hone, i, rfl, -⟩ | ⟨_, outer, block, inner, hsucc, rfl, houter,
      hholds, -⟩
    · simp only [List.length_cons, List.length_nil]
      omega
    · obtain rfl := Nat.succ.inj hsucc
      have houter := ih houter
      have hinner : 2 ≤ inner.length := by cases hholds <;> simp
      rw [List.length_append]
      omega

theorem Stands.held {v b : Value} {level : Nat} {outer inner : Path} {block : Members}
    (h : Stands v (.block level) outer (.object block)) (hholds : Block.Holds block inner)
    (hb : (Value.object block).resolve? inner = some b) :
    Stands v (.block (level + 1)) (outer ++ inner) b := by
  cases hholds with
  | blockquote i hnamed => exact h.step (.blockquote hnamed) hb
  | callout i hnamed => exact h.step (.callout hnamed) hb
  | list i j hnamed =>
    obtain ⟨item, hitem, hb⟩ := exists_of_resolve?_two hb
    have := (h.step (.list hnamed) hitem).step .listItem hb
    rwa [List.append_assoc] at this
  | table r c i hnamed =>
    obtain ⟨row, hrow, hb⟩ := exists_of_resolve?_two hb
    obtain ⟨cell, hcell, hb⟩ := exists_of_resolve?_two hb
    have := ((h.step (.table hnamed) hrow).step .row hcell).step .cell hb
    rwa [List.append_assoc, List.append_assoc] at this

/-- A block as seen from a node above, `base` steps away. -/
def Placed.under (base : Path) (b : Placed) : Placed :=
  (base ++ b.1, b.2)

/-- The blocks held by a block at its place. -/
def Block.below (b : Placed) : List Placed :=
  (nested b.2).map (Placed.under b.1)

theorem Block.descend_zero (b : Placed) : descend 0 b = [b] := rfl

theorem Block.descend_succ_eq (levels : Nat) (b : Placed) :
    descend (levels + 1) b = (below b).flatMap (descend levels) := by
  rw [descend, below, List.flatMap_map]
  rfl

/-- To go down one more level is to take what the blocks so far hold. -/
theorem Block.descend_succ (levels : Nat) (b : Placed) :
    descend (levels + 1) b = (descend levels b).flatMap below := by
  induction levels generalizing b with
  | zero =>
    rw [descend_succ_eq, descend_zero, List.flatMap_singleton]
    exact List.flatMap_singleton' _
  | succ levels ih =>
    rw [descend_succ_eq, descend_succ_eq, List.flatMap_assoc, funext ih]

theorem Chapter.blocksAt_one (v : Value) :
    blocksAt v 1 = placed [.field "blocks"] (elements v "blocks") :=
  List.flatMap_singleton' _

theorem Chapter.blocksAt_succ (v : Value) {level : Nat} (hlevel : level ≠ 0) :
    blocksAt v (level + 1) = (blocksAt v level).flatMap Block.below := by
  obtain ⟨level, rfl⟩ := Nat.exists_eq_succ_of_ne_zero hlevel
  rw [blocksAt, blocksAt, List.flatMap_assoc, funext (Block.descend_succ level)]

/-- **`mem_blocksAt_iff`** -- the blocks on a level are those that stand there. -/
theorem Chapter.mem_blocksAt_iff {v b : Value} {level : Nat} {place : Path} :
    (place, b) ∈ blocksAt v level ↔ Stands v (.block level) place b := by
  induction level generalizing place b with
  | zero =>
    refine ⟨fun h => absurd h List.not_mem_nil, fun h => ?_⟩
    rcases h.block_cases with ⟨h, -⟩ | ⟨_, _, _, _, h, -⟩ <;> cases h
  | succ level ih =>
    -- Level one is the array of the chapter; every other level is held by the one above it.
    rcases Nat.eq_zero_or_pos level with rfl | hlevel
    · rw [blocksAt_one, mem_placed_elements]
      constructor
      · rintro ⟨i, hb, rfl⟩
        exact .top hb
      · intro h
        rcases h.block_cases with ⟨-, i, rfl, hb⟩ | ⟨above, _, _, _, habove, -, hstands, -⟩
        · exact ⟨i, hb, rfl⟩
        · obtain rfl : above = 0 := by omega
          exact absurd (ih.mpr hstands) List.not_mem_nil
    · rw [blocksAt_succ v (Nat.ne_of_gt hlevel), List.mem_flatMap]
      constructor
      · rintro ⟨⟨outer, w⟩, hw, hb⟩
        obtain ⟨⟨inner, _⟩, hnested, heq⟩ := List.mem_map.mp hb
        cases heq
        obtain ⟨block, rfl, hholds, hb⟩ := Block.mem_nested_iff.mp hnested
        exact (ih.mp hw).held hholds hb
      · intro h
        rcases h.block_cases with ⟨hone, -⟩ | ⟨above, outer, block, inner, habove, rfl, hstands,
          hholds, hb⟩
        · omega
        · obtain rfl : above = level := by omega
          exact ⟨(outer, .object block), ih.mpr hstands,
            List.mem_map.mpr ⟨(inner, b), Block.mem_nested_iff.mpr ⟨block, rfl, hholds, hb⟩, rfl⟩⟩

end ChapterCheck
