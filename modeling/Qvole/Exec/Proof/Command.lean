import Mathlib.Data.List.Induction
import Qvole.Exec.Command

/-!
# Quoted arguments

A command is arguments with blanks between them, each written in runs of quoted and plain text. Every
text is such a command or ends inside of a quoted run, and the splitter tells the two apart and finds
the arguments, however they were written.
-/

namespace Qvole.Exec

open Bytes (isUtf8 utf8Step)

/-! ### Written arguments -/

def IsBlank (c : UInt8) : Prop := c = 32 ∨ c = 9

def IsQuote (c : UInt8) : Prop := c = 39 ∨ c = 34

/-- A part of an argument: quoted text without the quote, or plain text without quotes and blanks. -/
inductive Run where
  | quoted (q : UInt8) (text : Bytes) (hquote : IsQuote q) (hclosed : q ∉ text)
  | plain (text : Bytes) (hne : text ≠ []) (hplain : ∀ c ∈ text, ¬ IsQuote c ∧ ¬ IsBlank c)

def Run.value : Run → Bytes
  | .quoted _ text _ _ => text
  | .plain text _ _ => text

def Run.written : Run → Bytes
  | .quoted q text _ _ => q :: (text ++ [q])
  | .plain text _ _ => text

/-- The runs of an argument, and the gap behind it. -/
structure Item where
  runs : List Run
  gap : Bytes
  hruns : runs ≠ []
  hgap : ∀ c ∈ gap, IsBlank c

def Item.value (item : Item) : Bytes := item.runs.flatMap Run.value

def Item.written (item : Item) : Bytes := item.runs.flatMap Run.written ++ item.gap

/-- The text `s` is one way to write the arguments: with any blanks around them, and at least one
between two of them. -/
def Renders (args : List Bytes) (s : Bytes) : Prop :=
  ∃ (lead : Bytes) (items : List Item), (∀ c ∈ lead, IsBlank c) ∧
    (∀ item ∈ items.dropLast, item.gap ≠ []) ∧ args = items.map Item.value ∧
    s = lead ++ items.flatMap Item.written

/-- A quote opens behind a whole command, and is not closed. -/
def EndsInQuote (s : Bytes) : Prop :=
  ∃ args front q text, Renders args front ∧ IsQuote q ∧ q ∉ text ∧ s = front ++ q :: text

/-- In the middle of a command: arguments that are complete, and the runs of the next one. -/
def Reads (args : List Bytes) (runs : List Run) (front : Bytes) : Prop :=
  ∃ (lead : Bytes) (items : List Item), (∀ c ∈ lead, IsBlank c) ∧
    (∀ item ∈ items, item.gap ≠ []) ∧ args = items.map Item.value ∧
    front = lead ++ items.flatMap Item.written ++ runs.flatMap Run.written

variable {args : List Bytes} {runs : List Run} {front s : Bytes} {c q : UInt8}

theorem Reads.renders_nil (h : Reads args [] front) : Renders args front := by
  obtain ⟨lead, items, hlead, hitems, rfl, rfl⟩ := h
  refine ⟨lead, items, hlead, fun item hitem => hitems item (List.dropLast_subset items hitem), rfl, ?_⟩
  rw [List.flatMap_nil, List.append_nil]

theorem Reads.renders_runs (h : Reads args runs front) (hruns : runs ≠ []) :
    Renders (args ++ [runs.flatMap Run.value]) front := by
  obtain ⟨lead, items, hlead, hitems, rfl, rfl⟩ := h
  refine ⟨lead, items ++ [⟨runs, [], hruns, by simp⟩], hlead, ?_, ?_, ?_⟩
  · rw [List.dropLast_concat]
    exact hitems
  · rw [List.map_append]
    rfl
  · rw [List.flatMap_append, ← List.append_assoc]
    simp [Item.written]

/-- The last argument may end with the text or be followed by blanks. -/
theorem Renders.reads (h : Renders args s) :
    Reads args [] s ∨ ∃ init runs, Reads init runs s ∧ runs ≠ [] ∧
      args = init ++ [runs.flatMap Run.value] := by
  obtain ⟨lead, items, hlead, hitems, rfl, rfl⟩ := h
  rcases List.eq_nil_or_concat items with rfl | ⟨init, last, rfl⟩
  · exact Or.inl ⟨lead, [], hlead, by simp, rfl, by simp⟩
  · rw [List.concat_eq_append] at hitems ⊢
    rw [List.dropLast_concat] at hitems
    by_cases hgap : last.gap = []
    · refine Or.inr ⟨init.map Item.value, last.runs, ⟨lead, init, hlead, hitems, rfl, ?_⟩,
        last.hruns, ?_⟩
      · simp [Item.written, hgap]
      · rw [List.map_append]
        rfl
    · refine Or.inl ⟨lead, init ++ [last], hlead, ?_, rfl, by simp⟩
      rw [List.forall_mem_append, List.forall_mem_singleton]
      exact ⟨hitems, hgap⟩

/-! ### Every text is read -/

/-- Behind a command, or inside of a quoted run. -/
def Scanned (s : Bytes) : Prop :=
  (∃ args runs, Reads args runs s) ∨
    ∃ args runs front q text, Reads args runs front ∧ IsQuote q ∧ q ∉ text ∧ s = front ++ q :: text

theorem Reads.run (h : Reads args runs front) (run : Run) :
    Reads args (runs ++ [run]) (front ++ run.written) := by
  obtain ⟨lead, items, hlead, hitems, hargs, rfl⟩ := h
  refine ⟨lead, items, hlead, hitems, hargs, ?_⟩
  simp

theorem Reads.blank (h : Reads args runs front) (hc : IsBlank c) :
    ∃ args, Reads args [] (front ++ [c]) := by
  obtain ⟨lead, items, hlead, hitems, rfl, rfl⟩ := h
  have hgap : ∀ b : Bytes, (∀ d ∈ b, IsBlank d) → ∀ d ∈ b ++ [c], IsBlank d := by
    intro b hb
    rw [List.forall_mem_append, List.forall_mem_singleton]
    exact ⟨hb, hc⟩
  by_cases hruns : runs = []
  · subst hruns
    -- the blank goes to the gap it is in
    rcases List.eq_nil_or_concat items with rfl | ⟨init, last, rfl⟩
    · exact ⟨[], lead ++ [c], [], hgap lead hlead, by simp, rfl, by simp⟩
    · rw [List.concat_eq_append] at hitems ⊢
      refine ⟨_, lead, init ++ [⟨last.runs, last.gap ++ [c], last.hruns, hgap _ last.hgap⟩], hlead, ?_,
        rfl, ?_⟩
      · rw [List.forall_mem_append] at hitems ⊢
        exact ⟨hitems.1, by simp⟩
      · simp [Item.written]
  · refine ⟨_, lead, items ++ [⟨runs, [c], hruns, hgap [] (by simp)⟩], hlead, ?_, rfl, ?_⟩
    · rw [List.forall_mem_append, List.forall_mem_singleton]
      exact ⟨hitems, List.cons_ne_nil c []⟩
    · simp [Item.written]

theorem Scanned.snoc (h : Scanned s) (c : UInt8) : Scanned (s ++ [c]) := by
  rcases h with ⟨args, runs, h⟩ | ⟨args, runs, front, q, text, h, hq, htext, rfl⟩
  · by_cases hquote : IsQuote c
    · exact Or.inr ⟨args, runs, s, c, [], h, hquote, by simp, rfl⟩
    · by_cases hblank : IsBlank c
      · obtain ⟨args, h⟩ := h.blank hblank
        exact Or.inl ⟨args, [], h⟩
      · exact Or.inl ⟨args, _, h.run (.plain [c] (by simp) (by simp [hquote, hblank]))⟩
  · by_cases hclose : c = q
    · subst hclose
      refine Or.inl ⟨args, runs ++ [.quoted c text hq htext], ?_⟩
      rw [List.append_assoc]
      exact h.run _
    · refine Or.inr ⟨args, runs, front, q, text ++ [c], h, hq, ?_, by simp⟩
      rw [List.mem_append, List.mem_singleton, not_or]
      exact ⟨htext, Ne.symm hclose⟩

theorem scanned (s : Bytes) : Scanned s := by
  induction s using List.reverseRecOn with
  | nil => exact Or.inl ⟨[], [], [], [], by simp, by simp, rfl, rfl⟩
  | append_singleton s c ih => exact ih.snoc c

theorem Reads.renders (h : Reads args runs front) : ∃ args, Renders args front := by
  by_cases hruns : runs = []
  · subst hruns
    exact ⟨args, h.renders_nil⟩
  · exact ⟨_, h.renders_runs hruns⟩

theorem renders_or_endsInQuote (s : Bytes) : (∃ args, Renders args s) ∨ EndsInQuote s := by
  rcases scanned s with ⟨args, runs, h⟩ | ⟨args, runs, front, q, text, h, hq, htext, rfl⟩
  · exact Or.inl h.renders
  · obtain ⟨args, h⟩ := h.renders
    exact Or.inr ⟨args, front, q, text, h, hq, htext, rfl⟩

/-! ### The loop on a command -/

/-- The state outside of quotes. -/
def outside (args : List Bytes) (current : Bytes) (started : Bool) : SplitState :=
  { args, current, started, inSingle := false, inDouble := false }

/-- The state inside of a run with quote `q`. -/
def inside (q : UInt8) (args : List Bytes) (current : Bytes) : SplitState :=
  { args, current, started := true, inSingle := q == 39, inDouble := q == 34 }

section Loop

variable {current text gap : Bytes} {started : Bool}

theorem step_quote (hq : IsQuote q) :
    (outside args current started).step q = inside q args current := by
  rcases hq with rfl | rfl <;> rfl

theorem step_inside (hq : IsQuote q) :
    (inside q args current).step c =
      if c = q then outside args current true else inside q args (current ++ [c]) := by
  rcases hq with rfl | rfl
  · rfl
  · simp [inside, SplitState.step, outside]

theorem step_blank (hc : IsBlank c) :
    (outside args current started).step c =
      if started then outside (args ++ [ownedString current]) [] false
      else outside args current false := by
  rcases hc with rfl | rfl <;> cases started <;> rfl

theorem step_plain (hquote : ¬ IsQuote c) (hblank : ¬ IsBlank c) :
    (outside args current started).step c = outside args (current ++ [c]) true := by
  rw [IsQuote, not_or] at hquote
  rw [IsBlank] at hblank
  simp [outside, SplitState.step, hquote, hblank]

theorem foldl_inside (hq : IsQuote q) (htext : q ∉ text) :
    text.foldl SplitState.step (inside q args current) = inside q args (current ++ text) := by
  induction text generalizing current with
  | nil => rw [List.foldl_nil, List.append_nil]
  | cons c text ih =>
      rw [List.mem_cons, not_or] at htext
      rw [List.foldl_cons, step_inside hq, if_neg (Ne.symm htext.1), ih htext.2, List.append_assoc,
        List.singleton_append]

theorem foldl_plain (hne : text ≠ []) (htext : ∀ c ∈ text, ¬ IsQuote c ∧ ¬ IsBlank c) :
    text.foldl SplitState.step (outside args current started) =
      outside args (current ++ text) true := by
  induction text generalizing current started with
  | nil => exact absurd rfl hne
  | cons c text ih =>
      obtain ⟨hc, htext⟩ := List.forall_mem_cons.mp htext
      rw [List.foldl_cons, step_plain hc.1 hc.2]
      by_cases hlast : text = []
      · subst hlast
        rfl
      · rw [ih hlast htext, List.append_assoc, List.singleton_append]

theorem foldl_run (run : Run) :
    run.written.foldl SplitState.step (outside args current started) =
      outside args (current ++ run.value) true := by
  cases run with
  | quoted q text hq htext =>
      rw [Run.written, Run.value, List.foldl_cons, step_quote hq, List.foldl_append,
        foldl_inside hq htext, List.foldl_cons, step_inside hq, if_pos rfl, List.foldl_nil]
  | plain text hne htext => exact foldl_plain hne htext

theorem foldl_runs (runs : List Run) :
    (runs.flatMap Run.written).foldl SplitState.step (outside args current started) =
      outside args (current ++ runs.flatMap Run.value) (started || !runs.isEmpty) := by
  induction runs generalizing current started with
  | nil => simp
  | cons run runs ih =>
      rw [List.flatMap_cons, List.foldl_append, foldl_run, ih, List.flatMap_cons, List.append_assoc]
      simp

theorem foldl_blanks (hgap : ∀ c ∈ gap, IsBlank c) :
    gap.foldl SplitState.step (outside args current false) = outside args current false := by
  induction gap with
  | nil => rfl
  | cons c gap ih =>
      obtain ⟨hc, hgap⟩ := List.forall_mem_cons.mp hgap
      rw [List.foldl_cons, step_blank hc, if_neg Bool.false_ne_true, ih hgap]

theorem foldl_item {item : Item} (hgap : item.gap ≠ []) :
    item.written.foldl SplitState.step (outside args [] false) =
      outside (args ++ [ownedString item.value]) [] false := by
  obtain ⟨c, gap, hgapEq⟩ := List.exists_cons_of_ne_nil hgap
  have hblanks := item.hgap
  rw [hgapEq, List.forall_mem_cons] at hblanks
  have hstarted : (!item.runs.isEmpty) = true := by simp [item.hruns]
  rw [Item.written, List.foldl_append, foldl_runs, hgapEq, List.foldl_cons, step_blank hblanks.1,
    hstarted, Bool.or_true, if_pos rfl, foldl_blanks hblanks.2]
  rfl

theorem foldl_items {items : List Item} (hitems : ∀ item ∈ items, item.gap ≠ []) :
    (items.flatMap Item.written).foldl SplitState.step (outside args [] false) =
      outside (args ++ (items.map Item.value).map ownedString) [] false := by
  induction items generalizing args with
  | nil => simp
  | cons item items ih =>
      obtain ⟨hitem, hitems⟩ := List.forall_mem_cons.mp hitems
      rw [List.flatMap_cons, List.foldl_append, foldl_item hitem, ih hitems]
      simp

theorem Reads.foldl (h : Reads args runs front) :
    front.foldl SplitState.step .init =
      outside (args.map ownedString) (runs.flatMap Run.value) (!runs.isEmpty) := by
  obtain ⟨lead, items, hlead, hitems, rfl, rfl⟩ := h
  have hinit : SplitState.init = outside [] [] false := rfl
  rw [List.foldl_append, List.foldl_append, hinit, foldl_blanks hlead, foldl_items hitems, foldl_runs,
    Bool.false_or]
  rfl

end Loop

theorem Renders.splitCommand (h : Renders args s) :
    splitCommand s = some (args.map ownedString) := by
  rcases h.reads with hreads | ⟨init, runs, hreads, hruns, rfl⟩
  · rw [Exec.splitCommand, hreads.foldl]
    rfl
  · rw [Exec.splitCommand, hreads.foldl]
    simp [outside, hruns]

theorem EndsInQuote.splitCommand (h : EndsInQuote s) : splitCommand s = none := by
  obtain ⟨args, front, q, text, hrenders, hq, htext, rfl⟩ := h
  have hreads : ∃ args runs, Reads args runs front := by
    rcases hrenders.reads with h | ⟨init, runs, h, -⟩
    · exact ⟨args, [], h⟩
    · exact ⟨init, runs, h⟩
  obtain ⟨args, runs, hreads⟩ := hreads
  rw [Exec.splitCommand, List.foldl_append, List.foldl_cons, hreads.foldl, step_quote hq,
    foldl_inside hq htext]
  rcases hq with rfl | rfl <;> rfl

/-! ### Arguments are text -/

/-- Text stays text without one of its plain bytes. -/
theorem isUtf8_delete {a b : Bytes} (hc : c ≤ 127) (h : isUtf8 (a ++ c :: b) = true) :
    isUtf8 (a ++ b) = true := by
  obtain ⟨ha, hb⟩ := (Bytes.isUtf8_append_ascii hc).mp h
  exact (Bytes.isUtf8_append ha).mpr hb

theorem IsQuote.ascii (hq : IsQuote q) : q ≤ 127 := by
  rcases hq with rfl | rfl <;> decide

theorem IsBlank.ascii (hc : IsBlank c) : c ≤ 127 := by
  rcases hc with rfl | rfl <;> decide

theorem isUtf8_behind_blanks {gap rest : Bytes} (hgap : ∀ c ∈ gap, IsBlank c)
    (h : isUtf8 (gap ++ rest) = true) : isUtf8 rest = true := by
  induction gap with
  | nil => exact h
  | cons c gap ih =>
      obtain ⟨hc, hgap⟩ := List.forall_mem_cons.mp hgap
      exact ih hgap (isUtf8_delete (a := []) hc.ascii h)

theorem isUtf8_value (before : Bytes) (runs : List Run)
    (h : isUtf8 (before ++ runs.flatMap Run.written) = true) :
    isUtf8 (before ++ runs.flatMap Run.value) = true := by
  induction runs generalizing before with
  | nil => exact h
  | cons run runs ih =>
      rw [List.flatMap_cons] at h
      rw [List.flatMap_cons, ← List.append_assoc]
      apply ih
      cases run with
      | quoted q text hq htext =>
          have hopen : isUtf8 (before ++ (text ++ [q] ++ runs.flatMap Run.written)) = true :=
            isUtf8_delete hq.ascii h
          rw [List.append_assoc, ← List.append_assoc] at hopen
          exact isUtf8_delete hq.ascii hopen
      | plain text hne htext =>
          rw [List.append_assoc]
          exact h

theorem isUtf8_items {items : List Item} {rest : Bytes} (hitems : ∀ item ∈ items, item.gap ≠ [])
    (h : isUtf8 (items.flatMap Item.written ++ rest) = true) :
    (∀ item ∈ items, isUtf8 item.value = true) ∧ isUtf8 rest = true := by
  induction items with
  | nil => exact ⟨by simp, h⟩
  | cons item items ih =>
      obtain ⟨hgap, hitems⟩ := List.forall_mem_cons.mp hitems
      obtain ⟨c, gap, hgapEq⟩ := List.exists_cons_of_ne_nil hgap
      have hblanks := item.hgap
      rw [hgapEq, List.forall_mem_cons] at hblanks
      rw [List.flatMap_cons, Item.written, hgapEq, List.append_assoc, List.append_assoc,
        List.cons_append] at h
      obtain ⟨hruns, hbehind⟩ := (Bytes.isUtf8_append_ascii hblanks.1.ascii).mp h
      obtain ⟨hvalues, hrest⟩ := ih hitems (isUtf8_behind_blanks hblanks.2 hbehind)
      rw [List.forall_mem_cons]
      exact ⟨⟨isUtf8_value [] item.runs hruns, hvalues⟩, hrest⟩

theorem Reads.isUtf8 (h : Reads args runs front) (hfront : isUtf8 front = true) :
    (∀ arg ∈ args, Bytes.isUtf8 arg = true) ∧ Bytes.isUtf8 (runs.flatMap Run.value) = true := by
  obtain ⟨lead, items, hlead, hitems, rfl, rfl⟩ := h
  rw [List.append_assoc] at hfront
  obtain ⟨hvalues, hruns⟩ := isUtf8_items hitems (isUtf8_behind_blanks hlead hfront)
  refine ⟨?_, isUtf8_value [] runs hruns⟩
  rw [List.forall_mem_map]
  exact hvalues

theorem Renders.isUtf8 (h : Renders args s) (hs : isUtf8 s = true) :
    ∀ arg ∈ args, Bytes.isUtf8 arg = true := by
  rcases h.reads with hreads | ⟨init, runs, hreads, -, rfl⟩
  · exact (hreads.isUtf8 hs).1
  · rw [List.forall_mem_append, List.forall_mem_singleton]
    exact hreads.isUtf8 hs

theorem map_ownedString (h : ∀ arg ∈ args, isUtf8 arg = true) : args.map ownedString = args := by
  calc
    args.map ownedString = args.map id := by
      apply List.map_congr_left
      intro arg harg
      rw [ownedString, if_pos (h arg harg), id]
    _ = args := List.map_id args

/-- **Quoting is undone.** However arguments are written in a text, the splitter finds them; it finds
none exactly in a text that is no such writing, which is one that ends inside of a quoted run. -/
theorem splitCommand_inverts (hs : isUtf8 s = true) :
    (∀ args, Renders args s → splitCommand s = some args) ∧
    (splitCommand s = none ↔ ¬ ∃ args, Renders args s) ∧
    (splitCommand s = none ↔ EndsInQuote s) := by
  have hfound : ∀ args, Renders args s → splitCommand s = some args := by
    intro args h
    rw [h.splitCommand, map_ownedString (h.isUtf8 hs)]
  refine ⟨hfound, ⟨?_, ?_⟩, ⟨?_, fun h => h.splitCommand⟩⟩
  · rintro hnone ⟨args, h⟩
    rw [hfound args h] at hnone
    cases hnone
  · intro hnot
    rcases renders_or_endsInQuote s with hrenders | hquote
    · exact absurd hrenders hnot
    · exact hquote.splitCommand
  · intro hnone
    rcases renders_or_endsInQuote s with ⟨args, h⟩ | hquote
    · rw [hfound args h] at hnone
      cases hnone
    · exact hquote

/-- An argument of three runs, and an empty one. -/
theorem splitCommand_inverts_empty :
    isUtf8 (ascii " a'b c'\"'\"\t''") = true ∧
      splitCommand (ascii " a'b c'\"'\"\t''") = some [ascii "ab c'", []] := by
  have hs : isUtf8 (ascii " a'b c'\"'\"\t''") = true := by decide
  refine ⟨hs, (splitCommand_inverts hs).1 _ ⟨[32],
    [⟨[.plain [97] (by simp) (by simp [IsQuote, IsBlank]), .quoted 39 (ascii "b c") (Or.inl rfl) (by decide),
        .quoted 34 (ascii "'") (Or.inr rfl) (by decide)], [9], by simp, by simp [IsBlank]⟩,
      ⟨[.quoted 39 [] (Or.inl rfl) (by simp)], [], by simp, by simp⟩],
    by simp [IsBlank], by simp, rfl, rfl⟩⟩

end Qvole.Exec
