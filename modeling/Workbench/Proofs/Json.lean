import Workbench.Json.Printer
import Workbench.Json.Reader

/-!
# Reading what has been printed

Strings are read back as they were quoted (`readString_quoted`). From this, a value without numbers
is read back as it was printed, at whatever level and in front of whatever follows
(`Plain.reads`): the reader needs no more fuel than two for each character of the text. The text of
such a value has no carriage returns, so that it stays as it is when line ends are made uniform.
-/

namespace Workbench.Json

variable {d : Dialect} {start fuel level : Nat} {acc : List Char} {rest cs gap : List Char}
  {v : Json}

/-! ## Strings -/

/-- The four digits of a control character. -/
theorem hex4?_control : ∀ n < 32,
    List.replicate (4 - (Nat.toDigits 16 n).length) '0' ++ Nat.toDigits 16 n =
        ['0', '0', Nat.digitChar (n / 16), Nat.digitChar (n % 16)] ∧
      hex4? '0' '0' (Nat.digitChar (n / 16)) (Nat.digitChar (n % 16)) = some n := by
  decide +kernel

/-- What comes behind the digits of a control character does not go together with it. -/
theorem readString_hex4 {n : Nat} {a b c x : Char} (hhex : hex4? a b c x = some n) (hn : n < 32)
    (hrest : rest ≠ []) : readString d start acc ('\\' :: 'u' :: a :: b :: c :: x :: rest) =
      readString d start (Char.ofNat n :: acc) rest := by
  have hfirst : Text.isFirstHalf n = false := by simp [Text.isFirstHalf]; omega
  have hhalf : Text.isHalf n = false := by
    simp [Text.isHalf, hfirst, Text.isSecondHalf]
    omega
  have hscalar : Text.scalar n = Char.ofNat n := by
    rw [Text.scalar, hhalf, if_neg Bool.false_ne_true]
  rw [readString.eq_def]
  simp only [hhex]
  split
  · exact absurd rfl hrest
  · next he => cases he
  · next he =>
    obtain rfl := Option.some.inj he
    rw [hfirst, hhalf, hscalar]
    rfl
  · next he =>
    obtain rfl := Option.some.inj he
    rw [hhalf, hscalar]
    rfl

theorem readString_letter {l x : Char} (hl : shortEscape? l = some x) :
    readString d start acc ('\\' :: l :: rest) = readString d start (x :: acc) rest := by
  have hu : l ≠ 'u' := by
    rintro rfl
    cases hl
  rw [readString.eq_def]
  split
  · next he => cases he
  · next he => cases he
  · next he => cases he
  · next he =>
    obtain ⟨rfl, -⟩ := List.cons.inj (List.cons.inj he).2
    exact absurd rfl hu
  · next he =>
    obtain ⟨rfl, rfl⟩ := List.cons.inj (List.cons.inj he).2
    rw [if_neg (by simpa using hu), hl]
  · next hnone he =>
    obtain ⟨hc, rfl⟩ := List.cons.inj he
    exact (hnone l rest hc.symm rfl).elim

theorem readString_plain {c : Char} (hquote : c ≠ '"') (hback : c ≠ '\\') (hc : 32 ≤ c.toNat) :
    readString d start acc (c :: rest) = readString d start (c :: acc) rest := by
  rw [readString.eq_def]
  split
  · next he => cases he
  · next he => exact absurd (List.cons.inj he).1 hquote
  · next he => exact absurd (List.cons.inj he).1 hback
  · next he => exact absurd (List.cons.inj he).1 hback
  · next he => exact absurd (List.cons.inj he).1 hback
  · next he =>
    obtain ⟨rfl, rfl⟩ := List.cons.inj he
    rw [if_neg (by omega)]

theorem readString_escapeChar (c : Char) (hrest : rest ≠ []) :
    readString d start acc (escapeChar c ++ rest) = readString d start (c :: acc) rest := by
  unfold escapeChar
  split
  · exact readString_letter rfl
  · exact readString_letter rfl
  · exact readString_letter rfl
  · exact readString_letter rfl
  · exact readString_letter rfl
  · next hquote hback _ _ _ =>
    dsimp only
    split
    · next h8 =>
      have hc := Char.ofNat_toNat c
      rw [beq_iff_eq.1 h8] at hc
      rw [← hc]
      exact readString_letter rfl
    split
    · next h12 =>
      have hc := Char.ofNat_toNat c
      rw [beq_iff_eq.1 h12] at hc
      rw [← hc]
      exact readString_letter rfl
    split
    · next hcontrol =>
      obtain ⟨hdigits, hhex⟩ := hex4?_control c.toNat hcontrol
      rw [hdigits]
      exact (readString_hex4 hhex hcontrol hrest).trans (by rw [Char.ofNat_toNat])
    · next hcontrol => exact readString_plain hquote hback (by omega)

theorem readString_quoted (cs rest : List Char) :
    readString d start acc (cs.flatMap escapeChar ++ '"' :: rest) =
      .ok (acc.reverse ++ cs, rest) := by
  induction cs generalizing acc with
  | nil =>
    rw [List.flatMap_nil, List.nil_append, readString, List.append_nil]
  | cons c cs ih =>
    rw [List.flatMap_cons, List.append_assoc, readString_escapeChar c (by simp), ih,
      List.reverse_cons, List.append_assoc]
    rfl

/-! ## Values -/

/-- A value that holds no numbers. -/
inductive Plain : Json → Prop
  | null : Plain .null
  | bool (b : Bool) : Plain (.bool b)
  | str (s : String) : Plain (.str s)
  | arr {items : List Json} (h : ∀ v ∈ items, Plain v) : Plain (.arr items)
  | obj {fields : List (String × Json)} (h : ∀ f ∈ fields, Plain f.2) : Plain (.obj fields)

/-- Characters are read as a value, whatever follows them. -/
structure Reads (d : Dialect) (cs : List Char) (v : Json) : Prop where
  head : ∃ c rest, cs = c :: rest ∧ isSpace c = false ∧ c ≠ ']' ∧ c ≠ '}'
  value : ∀ {fuel} (rest : List Char), 2 * cs.length ≤ fuel →
    readValue d fuel (cs ++ rest) = .ok (v, rest)

theorem skipSpace_cons {c : Char} (hc : isSpace c = false) (cs : List Char) :
    skipSpace (c :: cs) = c :: cs := by
  rw [skipSpace, List.dropWhile_cons_of_neg (by simp [hc])]

theorem skipSpace_append (hg : ∀ c ∈ gap, isSpace c = true) (cs : List Char) :
    skipSpace (gap ++ cs) = skipSpace cs := by
  rw [skipSpace, List.dropWhile_append_of_pos hg]
  rfl

theorem Reads.skipSpace_before (h : Reads d cs v) (hg : ∀ c ∈ gap, isSpace c = true)
    (rest : List Char) :
    skipSpace (gap ++ (cs ++ rest)) = cs ++ rest := by
  obtain ⟨c, more, rfl, hc, -⟩ := h.head
  rw [skipSpace_append hg, List.cons_append, skipSpace_cons hc]

theorem exists_fuel (hc : 0 < cs.length) (hf : 2 * cs.length ≤ fuel) : ∃ k, fuel = k + 1 :=
  Nat.exists_eq_add_one.2 (by omega)

theorem reads_scalar {c : Char} {more : List Char} (hspace : isSpace c = false)
    (hc : c ∉ ['"', '{', '[', ']', '}'])
    (hs : ∀ rest, readScalar d (c :: (more ++ rest)) = .ok (v, rest)) : Reads d (c :: more) v := by
  simp only [List.mem_cons, List.not_mem_nil, or_false, not_or] at hc
  obtain ⟨hquote, hbrace, hbracket, hclose, hend⟩ := hc
  refine ⟨⟨c, more, rfl, hspace, hclose, hend⟩, fun {fuel} rest hf => ?_⟩
  obtain ⟨fuel, rfl⟩ := exists_fuel (List.length_pos_iff.2 (List.cons_ne_nil _ _)) hf
  rw [List.cons_append, readValue]
  · exact hs rest
  · exact fun _ he => hquote (List.cons.inj he).1
  · exact fun _ he => hbrace (List.cons.inj he).1
  · exact fun _ he => hbracket (List.cons.inj he).1

theorem reads_null : Reads d "null".toList .null := by
  rw [show "null".toList = ['n', 'u', 'l', 'l'] from rfl]
  exact reads_scalar (by decide) (by decide) fun rest => by simp [readScalar, valueWords]

theorem reads_bool (b : Bool) : Reads d (if b then "true" else "false").toList (.bool b) := by
  cases b with
  | false =>
    rw [show (if false then "true" else "false").toList = ['f', 'a', 'l', 's', 'e'] from rfl]
    exact reads_scalar (by decide) (by decide) fun rest => by simp [readScalar, valueWords]
  | true =>
    rw [show (if true then "true" else "false").toList = ['t', 'r', 'u', 'e'] from rfl]
    exact reads_scalar (by decide) (by decide) fun rest => by simp [readScalar, valueWords]

theorem toList_quote (s : String) :
    (quote s).toList = '"' :: (s.toList.flatMap escapeChar ++ ['"']) := by
  rw [quote, String.toList_ofList]

theorem reads_quote (s : String) : Reads d (quote s).toList (.str s) := by
  rw [toList_quote]
  refine ⟨⟨_, _, rfl, rfl, by decide, by decide⟩, fun {fuel} rest hf => ?_⟩
  obtain ⟨fuel, rfl⟩ := exists_fuel (List.length_pos_iff.2 (List.cons_ne_nil _ _)) hf
  rw [readValue.eq_def]
  simp only [List.cons_append, List.append_assoc, List.nil_append, readString_quoted,
    List.reverse_nil, String.ofList_toList]

/-! ## Lists of parts -/

section

variable {α : Type} {read : Nat → List α → List Char → Except ReadError (Json × List Char)}
  {close : Char} {whole : List α → Json} {sep : List Char}

/-- Characters are read as a part of a list. Behind it comes a comma, or the list is closed. -/
structure ReadsPart (read : Nat → List α → List Char → Except ReadError (Json × List Char))
    (close : Char) (whole : List α → Json) (cs : List Char) (a : α) : Prop where
  head : ∃ c rest, cs = c :: rest ∧ isSpace c = false ∧ c ≠ close
  more : ∀ {fuel} (acc : List α) (rest : List Char), 2 * cs.length ≤ fuel →
    read (fuel + 1) acc (cs ++ ',' :: rest) = read fuel (a :: acc) (skipSpace rest)
  last : ∀ {fuel} (acc : List α) {gap : List Char} (rest : List Char), 2 * cs.length ≤ fuel →
    (∀ c ∈ gap, isSpace c = true) →
      read (fuel + 1) acc (cs ++ (gap ++ close :: rest)) = .ok (whole (a :: acc).reverse, rest)

theorem Reads.item (h : Reads d cs v) : ReadsPart (readItems d) ']' .arr cs v where
  head := by
    obtain ⟨c, rest, hcs, hspace, hclose, -⟩ := h.head
    exact ⟨c, rest, hcs, hspace, hclose⟩
  more acc rest hf := by
    rw [readItems, h.value _ hf]
    simp only
    rw [skipSpace_cons (by decide)]
    rfl
  last acc gap rest hf hgap := by
    rw [readItems, h.value _ hf]
    simp only
    rw [skipSpace_append hgap, skipSpace_cons (by decide)]
    rfl

/-- The text of a field whose value has a text. -/
def fieldChars (name : String) (cs : List Char) : List Char :=
  (quote name).toList ++ ':' :: ' ' :: cs

theorem Reads.field (h : Reads d cs v) (name : String) :
    ReadsPart (readFields d) '}' .obj (fieldChars name cs) (name, v) := by
  have hvalue : ∀ {fuel} (acc : List (String × Json)) {rest more : List Char},
      2 * (fieldChars name cs).length ≤ fuel →
        (skipSpace rest = ',' :: more → readFields d (fuel + 1) acc (fieldChars name cs ++ rest) =
          readFields d fuel ((name, v) :: acc) (skipSpace more)) ∧
        (skipSpace rest = '}' :: more → readFields d (fuel + 1) acc (fieldChars name cs ++ rest) =
          .ok (.obj ((name, v) :: acc).reverse, more)) := by
    intro fuel acc rest more hf
    have hskip : skipSpace ([' '] ++ (cs ++ rest)) = cs ++ rest :=
      h.skipSpace_before (List.forall_mem_singleton.2 rfl) rest
    simp only [fieldChars, toList_quote, List.length_append, List.length_cons] at hf
    simp only [fieldChars, toList_quote, List.cons_append, List.append_assoc, List.nil_append]
    rw [readFields.eq_def]
    simp only [readString_quoted]
    rw [skipSpace_cons (by decide)]
    simp only
    rw [List.cons_append, List.nil_append] at hskip
    rw [hskip, h.value _ (by omega)]
    simp only [List.reverse_nil, List.nil_append, String.ofList_toList]
    exact ⟨fun he => by simp only [he], fun he => by simp only [he]⟩
  refine ⟨⟨'"', _, by rw [fieldChars, toList_quote, List.cons_append], by decide, by decide⟩,
    ?_, ?_⟩
  · intro fuel acc rest hf
    exact (hvalue acc hf).1 (skipSpace_cons (by decide) rest)
  · intro fuel acc gap rest hf hgap
    refine (hvalue acc hf).2 ?_
    rw [skipSpace_append hgap, skipSpace_cons (by decide)]

theorem ReadsPart.skipSpace_before {a : α} (h : ReadsPart read close whole cs a)
    (hsep : ∀ c ∈ sep, isSpace c = true) (rest : List Char) :
    skipSpace (sep ++ (cs ++ rest)) = cs ++ rest := by
  obtain ⟨c, more, rfl, hc, -⟩ := h.head
  rw [skipSpace_append hsep, List.cons_append, skipSpace_cons hc]

theorem exists_intercalate_cons (sep cs : List Char) (l : List (List Char)) :
    ∃ more, sep.intercalate (cs :: l) = cs ++ more := by
  cases l with
  | nil => exact ⟨[], by simp⟩
  | cons y l => exact ⟨_, by rw [List.intercalate_cons_cons, List.append_assoc]⟩

/-- The parts of a list with commas between them. -/
theorem read_joined {l : List (List Char × α)}
    (hl : ∀ x ∈ l, ReadsPart read close whole x.1 x.2) (hne : l ≠ [])
    (hsep : ∀ c ∈ sep, isSpace c = true) (hgap : ∀ c ∈ gap, isSpace c = true) (acc : List α)
    (rest : List Char) (hf : 2 * ((',' :: sep).intercalate (l.map Prod.fst) ++ gap).length < fuel) :
    read fuel acc ((',' :: sep).intercalate (l.map Prod.fst) ++ (gap ++ close :: rest)) =
      .ok (whole (acc.reverse ++ l.map Prod.snd), rest) := by
  induction l generalizing fuel acc with
  | nil => exact absurd rfl hne
  | cons x l ih =>
    obtain ⟨hx, hrest⟩ := List.forall_mem_cons.1 hl
    obtain ⟨fuel, rfl⟩ : ∃ k, fuel = k + 1 := Nat.exists_eq_add_one.2 (by omega)
    cases l with
    | nil =>
      simp only [List.map_cons, List.map_nil, List.intercalate_singleton, List.length_append]
        at hf ⊢
      rw [hx.last _ _ (by omega) hgap, List.reverse_cons]
    | cons y l =>
      rw [List.map_cons, List.map_cons, List.intercalate_cons_cons] at hf ⊢
      rw [List.map_cons] at ih
      simp only [List.length_append, List.length_cons] at hf
      have hfuel : 2 * ((',' :: sep).intercalate (y.1 :: l.map Prod.fst) ++ gap).length < fuel := by
        rw [List.length_append]
        omega
      have hnext := ih hrest (List.cons_ne_nil _ _) (x.2 :: acc) hfuel
      obtain ⟨more, hmore⟩ := exists_intercalate_cons (',' :: sep) y.1 (l.map Prod.fst)
      rw [hmore, List.append_assoc] at hnext ⊢
      rw [List.append_assoc, List.append_assoc, List.cons_append, hx.more _ _ (by omega),
        (hrest y List.mem_cons_self).skipSpace_before hsep, hnext]
      simp

theorem isSpace_newLine (level : Nat) : ∀ c ∈ (newLine level).toList, isSpace c = true := by
  intro c hc
  simp only [newLine, String.toList_append, String.toList_ofList, List.mem_append,
    List.mem_replicate] at hc
  rcases hc with hc | ⟨-, rfl⟩
  · obtain rfl : c = '\n' := by simpa using hc
    rfl
  · rfl

/-- The marks of a list, and what the reader does behind the one that opens it. -/
structure Opens (d : Dialect)
    (read : Nat → List α → List Char → Except ReadError (Json × List Char))
    (mark close : Char) (whole : List α → Json) : Prop where
  isMark : isSpace mark = false ∧ mark ≠ ']' ∧ mark ≠ '}'
  empty : ∀ {fuel} (rest : List Char),
    readValue d (fuel + 1) (mark :: close :: rest) = .ok (whole [], rest)
  first : ∀ {fuel cs c more}, skipSpace cs = c :: more → c ≠ close →
    readValue d (fuel + 1) (mark :: cs) = read fuel [] (c :: more)

theorem opens_items : Opens d (readItems d) '[' ']' .arr where
  isMark := by decide
  empty rest := by
    rw [readValue, skipSpace_cons (by decide)]
    rfl
  first hc hne := by
    rw [readValue, hc]
    split
    · next he => exact absurd (List.cons.inj he).1 hne
    · rfl

theorem opens_fields : Opens d (readFields d) '{' '}' .obj where
  isMark := by decide
  empty rest := by
    rw [readValue, skipSpace_cons (by decide)]
    rfl
  first hc hne := by
    rw [readValue, hc]
    split
    · next he => exact absurd (List.cons.inj he).1 hne
    · rfl

variable {mark : Char} {opening closing : String}

theorem Opens.reads_nil (h : Opens d read mark close whole) : Reads d [mark, close] (whole []) := by
  refine ⟨⟨mark, _, rfl, h.isMark⟩, fun {fuel} rest hf => ?_⟩
  obtain ⟨fuel, rfl⟩ := exists_fuel (List.length_pos_iff.2 (List.cons_ne_nil _ _)) hf
  exact h.empty rest

theorem Opens.reads_joined (h : Opens d read mark close whole) {l : List (List Char × α)}
    (hl : ∀ x ∈ l, ReadsPart read close whole x.1 x.2) (hne : l ≠ [])
    (hsep : ∀ c ∈ sep, isSpace c = true) (hgap : ∀ c ∈ gap, isSpace c = true) :
    Reads d (mark :: (sep ++ ((',' :: sep).intercalate (l.map Prod.fst) ++ (gap ++ [close]))))
      (whole (l.map Prod.snd)) := by
  refine ⟨⟨mark, _, rfl, h.isMark⟩, fun {fuel} rest hf => ?_⟩
  obtain ⟨fuel, rfl⟩ := exists_fuel (List.length_pos_iff.2 (List.cons_ne_nil _ _)) hf
  simp only [List.length_cons, List.length_append] at hf
  have hfuel : 2 * ((',' :: sep).intercalate (l.map Prod.fst) ++ gap).length < fuel := by
    rw [List.length_append]
    omega
  have hread := read_joined hl hne hsep hgap [] rest hfuel
  obtain ⟨x, l, rfl⟩ := List.exists_cons_of_ne_nil hne
  obtain ⟨c, cs, hx, hspace, hclose⟩ := (hl x List.mem_cons_self).head
  obtain ⟨more, hmore⟩ := exists_intercalate_cons (',' :: sep) x.1 (l.map Prod.fst)
  rw [List.map_cons, hmore, hx] at hread ⊢
  simp only [List.cons_append, List.append_assoc, List.nil_append] at hread ⊢
  rw [h.first (by rw [skipSpace_append hsep, skipSpace_cons hspace]) hclose, hread]
  rfl

/-- The parts of a list on lines of their own. -/
theorem Opens.reads_block (h : Opens d read mark close whole) (level : Nat)
    (hopening : opening.toList = [mark]) (hclosing : closing.toList = [close])
    {l : List (String × α)} (hl : ∀ x ∈ l, ReadsPart read close whole x.1.toList x.2) :
    Reads d (block opening closing level (l.map Prod.fst)).toList (whole (l.map Prod.snd)) := by
  by_cases hnil : l = []
  · subst hnil
    have hblock : (block opening closing level []).toList = [mark, close] := by
      rw [block, List.isEmpty_nil, if_pos rfl, String.toList_append, hopening, hclosing]
      rfl
    rw [List.map_nil, hblock]
    exact h.reads_nil
  · have hparts : ∀ x ∈ l.map fun y => (y.1.toList, y.2), ReadsPart read close whole x.1 x.2 := by
      simpa only [List.forall_mem_map] using hl
    have hreads := h.reads_joined hparts (by simpa using hnil) (isSpace_newLine (level + 1))
      (isSpace_newLine level)
    have hblock : (block opening closing level (l.map Prod.fst)).toList = mark ::
        ((newLine (level + 1)).toList ++ ((',' :: (newLine (level + 1)).toList).intercalate
          ((l.map fun y => (y.1.toList, y.2)).map Prod.fst) ++
            ((newLine level).toList ++ [close]))) := by
      rw [block, if_neg (by simpa using hnil)]
      simp only [String.toList_append, String.toList_intercalate, hopening, hclosing, List.map_map,
        List.append_assoc]
      rfl
    rw [hblock]
    simpa only [List.map_map, Function.comp_def] using hreads

end

/-! ## Plain values -/

theorem prettyItems_eq (level : Nat) (items : List Json) :
    prettyItems level items = items.map (pretty level) := by
  induction items with
  | nil => rfl
  | cons v rest ih => rw [prettyItems, ih, List.map_cons]

theorem prettyFields_eq (level : Nat) (fields : List (String × Json)) :
    prettyFields level fields = fields.map fun f => quote f.1 ++ ": " ++ pretty level f.2 := by
  induction fields with
  | nil => rfl
  | cons f rest ih =>
    obtain ⟨k, v⟩ := f
    rw [prettyFields, ih, List.map_cons]

/-- A value without numbers is read back as it was printed, whatever follows. -/
theorem Plain.reads (h : Plain v) (level : Nat) : Reads d (pretty level v).toList v := by
  induction h generalizing level with
  | null => exact reads_null
  | bool b => exact reads_bool b
  | str s => exact reads_quote s
  | @arr items h ih =>
    have hblock := opens_items.reads_block level
      (show "[".toList = ['['] from rfl) (show "]".toList = [']'] from rfl)
      (l := items.map fun v => (pretty (level + 1) v, v))
      (List.forall_mem_map.2 fun v hv => (ih v hv (level + 1)).item (d := d))
    rw [pretty, prettyItems_eq]
    simpa only [List.map_map, Function.comp_def, List.map_id'] using hblock
  | @obj fields h ih =>
    have hfields : ∀ x ∈ fields.map fun f => (quote f.1 ++ ": " ++ pretty (level + 1) f.2, f),
        ReadsPart (readFields d) '}' .obj x.1.toList x.2 := by
      intro x hx
      obtain ⟨f, hf, rfl⟩ := List.mem_map.1 hx
      have hchars : (quote f.1 ++ ": " ++ pretty (level + 1) f.2).toList =
          fieldChars f.1 (pretty (level + 1) f.2).toList := by
        simp [fieldChars]
      rw [hchars]
      exact (ih f hf (level + 1)).field f.1
    have hblock := opens_fields.reads_block level
      (show "\x7b".toList = ['{'] from rfl) (show "\x7d".toList = ['}'] from rfl)
      hfields
    rw [pretty, prettyFields_eq]
    simpa only [List.map_map, Function.comp_def, List.map_id'] using hblock

/-- The text of a value without numbers is read as the value. -/
theorem parse_pretty (h : Plain v) (level : Nat) : parse d (pretty level v) = .ok v := by
  have hreads := h.reads (d := d) level
  have hvalue := hreads.value [] (Nat.le_add_right (2 * (pretty level v).toList.length) 2)
  have hskip := hreads.skipSpace_before (List.forall_mem_nil _) []
  rw [List.append_nil] at hvalue
  rw [List.nil_append, List.append_nil] at hskip
  rw [parse]
  simp only [hskip, hvalue]
  rfl

/-! ## Line ends -/

theorem not_mem_escapeChar (c : Char) : '\r' ∉ escapeChar c := by
  unfold escapeChar
  split
  · decide
  · decide
  · decide
  · decide
  · decide
  · dsimp only
    split
    · decide
    split
    · decide
    split
    · next hcontrol =>
      rw [(hex4?_control c.toNat hcontrol).1]
      revert hcontrol
      generalize c.toNat = n
      revert n
      decide +kernel
    · next hcontrol =>
      rw [List.mem_singleton]
      rintro rfl
      exact hcontrol (by decide)

theorem not_mem_quote (s : String) : '\r' ∉ (quote s).toList := by
  rw [toList_quote]
  simp [not_mem_escapeChar]

theorem not_mem_intercalate {c : Char} {sep : List Char} {l : List (List Char)} (hsep : c ∉ sep)
    (hl : ∀ cs ∈ l, c ∉ cs) : c ∉ sep.intercalate l := by
  induction l with
  | nil => simp
  | cons x l ih =>
    obtain ⟨hx, hrest⟩ := List.forall_mem_cons.1 hl
    cases l with
    | nil => simpa using hx
    | cons y l =>
      rw [List.intercalate_cons_cons, List.mem_append, List.mem_append, not_or, not_or]
      exact ⟨⟨hx, hsep⟩, ih hrest⟩

theorem not_mem_block {opening closing : String} {parts : List String}
    (ho : '\r' ∉ opening.toList) (hc : '\r' ∉ closing.toList)
    (hp : ∀ p ∈ parts, '\r' ∉ p.toList) : '\r' ∉ (block opening closing level parts).toList := by
  have hline : ∀ k, '\r' ∉ (newLine k).toList := fun k => by simp [newLine]
  unfold block
  split
  · simp [ho, hc]
  · have hparts : '\r' ∉ (',' :: (newLine (level + 1)).toList).intercalate
        (parts.map String.toList) :=
      not_mem_intercalate (by simp [hline]) (List.forall_mem_map.2 hp)
    simp [ho, hc, hline, String.toList_intercalate, hparts]

/-- The text of a value without numbers holds no carriage returns. -/
theorem Plain.not_mem (h : Plain v) (level : Nat) : '\r' ∉ (pretty level v).toList := by
  induction h generalizing level with
  | null => simp [pretty]
  | bool b => cases b <;> simp [pretty]
  | str s => exact not_mem_quote s
  | @arr items h ih =>
    rw [pretty, prettyItems_eq]
    refine not_mem_block (by decide) (by decide) ?_
    exact List.forall_mem_map.2 fun v hv => ih v hv (level + 1)
  | @obj fields h ih =>
    rw [pretty, prettyFields_eq]
    refine not_mem_block (by decide) (by decide) ?_
    intro p hp
    obtain ⟨f, hf, rfl⟩ := List.mem_map.1 hp
    simp [not_mem_quote, ih f hf (level + 1)]

end Workbench.Json
