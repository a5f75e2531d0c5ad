import GumServer.Json

/-!
# JSON as text

`serde_json` writes values compactly, with the short escapes where there are some. The text of a
value that is no container reads back, also with more text behind it (`readScalar_chars`), so no two
of them are written alike, and neither are two objects of them with the same keys (`jsonText`).

The source only ever compares digests of such texts; `JsonText` is what it takes from them.
-/

namespace GumServer

/-! ## Writing -/

/-- A hex digit of an escape. -/
def escapeDigit (n : ℕ) : Char := Nat.digitChar n

/-- A character of a JSON string. -/
def escapeChar (c : Char) : List Char :=
  if c = '"' then ['\\', '"']
  else if c = '\\' then ['\\', '\\']
  else if c = '\x08' then ['\\', 'b']
  else if c = '\x0c' then ['\\', 'f']
  else if c = '\n' then ['\\', 'n']
  else if c = '\r' then ['\\', 'r']
  else if c = '\t' then ['\\', 't']
  else if c.toNat < 32 then ['\\', 'u', '0', '0', escapeDigit (c.toNat / 16), escapeDigit (c.toNat % 16)]
  else [c]

/-- A JSON string. -/
def quoted (cs : List Char) : List Char := '"' :: cs.flatMap escapeChar ++ ['"']

mutual

/-- The text of a value. -/
def Value.chars : Value → List Char
  | .null => ['n', 'u', 'l', 'l']
  | .bool true => ['t', 'r', 'u', 'e']
  | .bool false => ['f', 'a', 'l', 's', 'e']
  | .number (.posInt n) => Nat.toDigits 10 n.val
  | .number (.negInt n) => '-' :: Nat.toDigits 10 n.natAbs
  | .number (.float f) => (toString f).toList
  | .string s => quoted s.toList
  | .array [] => ['[', ']']
  | .array (v :: vs) => '[' :: v.chars ++ Value.elementsAfter vs
  | .object [] => ['\x7b', '\x7d']
  | .object ((key, v) :: fields) => '\x7b' :: quoted key.toList ++ ':' :: v.chars ++ Value.fieldsAfter fields

/-- The rest of an array. -/
def Value.elementsAfter : List Value → List Char
  | [] => [']']
  | v :: vs => ',' :: v.chars ++ Value.elementsAfter vs

/-- The rest of an object. -/
def Value.fieldsAfter : List (String × Value) → List Char
  | [] => ['\x7d']
  | (key, v) :: fields => ',' :: quoted key.toList ++ ':' :: v.chars ++ Value.fieldsAfter fields

end

/-- `Value::to_string`. -/
def Value.text (v : Value) : String := String.ofList v.chars

/-! ## Reading

Only texts that were written are ever read here, so a reader looks no further than it has to. -/

/-- What a short escape stands for. -/
def unescapeShort (e : Char) : Char :=
  if e = 'b' then '\x08' else if e = 'f' then '\x0c' else if e = 'n' then '\n'
  else if e = 'r' then '\r' else if e = 't' then '\t' else e

/-- What the last two digits of a long escape stand for. -/
def unescapeLong (hi lo : Char) : Char :=
  Char.ofNat (((List.range 32).find? fun n =>
    escapeDigit (n / 16) == hi && escapeDigit (n % 16) == lo).getD 0)

/-- A string after its opening quote, and what follows it. -/
def readString : List Char → Option (List Char × List Char)
  | [] => none
  | '"' :: cs => some ([], cs)
  | '\\' :: 'u' :: _ :: _ :: hi :: lo :: cs =>
    (readString cs).map fun p => (unescapeLong hi lo :: p.1, p.2)
  | '\\' :: e :: cs => (readString cs).map fun p => (unescapeShort e :: p.1, p.2)
  | c :: cs => (readString cs).map fun p => (c :: p.1, p.2)

/-- A value that is no container, and what follows it. -/
def readScalar : List Char → Option (Value × List Char)
  | [] => none
  | c :: cs =>
    if c = '"' then (readString cs).map fun p => (.string (String.ofList p.1), p.2)
    else if c = 'n' then some (.null, cs.drop 3)
    else if c = 't' then some (.bool true, cs.drop 3)
    else if c = 'f' then some (.bool false, cs.drop 4)
    else if c = '-' then
      some (.number (.negInt (-Nat.ofDigitChars 10 (cs.takeWhile Char.isDigit) 0)),
        cs.dropWhile Char.isDigit)
    else
      some (.number (.posInt (Fin.ofNat _ (Nat.ofDigitChars 10 ((c :: cs).takeWhile Char.isDigit) 0))),
        (c :: cs).dropWhile Char.isDigit)

theorem unescapeLong_escapeDigit {n : ℕ} (h : n < 32) :
    unescapeLong (escapeDigit (n / 16)) (escapeDigit (n % 16)) = Char.ofNat n := by
  have key : ∀ n < 32, unescapeLong (escapeDigit (n / 16)) (escapeDigit (n % 16)) = Char.ofNat n := by
    decide
  exact key n h

/-- One character is read back. -/
theorem readString_escapeChar (c : Char) (cs : List Char) :
    readString (escapeChar c ++ cs) = (readString cs).map fun p => (c :: p.1, p.2) := by
  rw [escapeChar]
  split
  · next h => simp [h, readString, unescapeShort]
  split
  · next h => simp [h, readString, unescapeShort]
  split
  · next h => simp [h, readString, unescapeShort]
  split
  · next h => simp [h, readString, unescapeShort]
  split
  · next h => simp [h, readString, unescapeShort]
  split
  · next h => simp [h, readString, unescapeShort]
  split
  · next h => simp [h, readString, unescapeShort]
  split
  · next h =>
    simp only [List.cons_append, List.nil_append, readString, unescapeLong_escapeDigit h,
      Char.ofNat_toNat]
  · next hslash _ _ _ _ _ _ => simp [readString, hslash]

/-- A string is read back. -/
theorem readString_quoted (s rest : List Char) :
    readString (s.flatMap escapeChar ++ '"' :: rest) = some (s, rest) := by
  induction s with
  | nil => simp [readString]
  | cons c s ih => simp [readString_escapeChar, ih]

/-- A value that is no container, and no float. -/
def Value.Scalar : Value → Prop
  | .null => True
  | .bool _ => True
  | .number (.posInt _) => True
  | .number (.negInt n) => n < 0
  | .string _ => True
  | _ => False

/-- Text that does not go on with a digit. -/
def NoDigitNext (rest : List Char) : Prop := ∀ c ∈ rest.head?, c.isDigit = false

section Digits

variable {ds rest : List Char}

theorem takeWhile_isDigit_append (hds : ds.all Char.isDigit = true) (hrest : NoDigitNext rest) :
    (ds ++ rest).takeWhile Char.isDigit = ds := by
  rw [List.takeWhile_append_of_pos (List.all_eq_true.mp hds)]
  cases rest with
  | nil => simp
  | cons c rest => simp [hrest c rfl]

theorem dropWhile_isDigit_append (hds : ds.all Char.isDigit = true) (hrest : NoDigitNext rest) :
    (ds ++ rest).dropWhile Char.isDigit = rest := by
  rw [List.dropWhile_append_of_pos (List.all_eq_true.mp hds)]
  cases rest with
  | nil => rfl
  | cons c rest => simp [hrest c rfl]

end Digits

/-- **A value that is no container is read back.** -/
theorem readScalar_chars {v : Value} (hv : v.Scalar) {rest : List Char} (hrest : NoDigitNext rest) :
    readScalar (v.chars ++ rest) = some (v, rest) := by
  cases v with
  | null => simp [Value.chars, readScalar]
  | bool b => cases b <;> simp [Value.chars, readScalar]
  | string s => simp [Value.chars, readScalar, quoted, readString_quoted]
  | number n =>
    cases n with
    | posInt n =>
      obtain ⟨c, ds, hds⟩ := List.exists_cons_of_ne_nil (Nat.toDigits_ne_nil (n := n.val) (b := 10))
      have hdigits := all_isDigit_toDigits n.val
      have hc : c.isDigit = true := by
        rw [hds] at hdigits
        exact (Bool.and_eq_true_iff.mp hdigits).1
      have hne {d : Char} (hd : d.isDigit = false) : c ≠ d := by
        rintro rfl
        rw [hc] at hd
        cases hd
      rw [Value.chars, hds, List.cons_append, readScalar, if_neg (hne (by decide)),
        if_neg (hne (by decide)), if_neg (hne (by decide)), if_neg (hne (by decide)),
        if_neg (hne (by decide)), ← List.cons_append, ← hds, takeWhile_isDigit_append hdigits hrest,
        dropWhile_isDigit_append hdigits hrest, Nat.ofDigitChars_ten_toDigits]
      simp
    | negInt n =>
      have hdigits := all_isDigit_toDigits n.natAbs
      have hn : -(n.natAbs : ℤ) = n := by
        have : n < 0 := hv
        omega
      rw [Value.chars, List.cons_append, readScalar, if_neg (by decide), if_neg (by decide),
        if_neg (by decide), if_neg (by decide), if_pos rfl, takeWhile_isDigit_append hdigits hrest,
        dropWhile_isDigit_append hdigits hrest, Nat.ofDigitChars_ten_toDigits, hn]
    | float f => exact hv.elim
  | array vs => exact hv.elim
  | object fields => exact hv.elim

/-- So two of them that are written alike, up to what follows, are the same. -/
theorem chars_append_inj {v w : Value} (hv : v.Scalar) (hw : w.Scalar) {r r' : List Char}
    (hr : NoDigitNext r) (hr' : NoDigitNext r') (h : v.chars ++ r = w.chars ++ r') :
    v = w ∧ r = r' := by
  have hread := readScalar_chars hv hr
  rw [h, readScalar_chars hw hr'] at hread
  obtain ⟨rfl, rfl⟩ := Prod.mk.inj (Option.some.inj hread)
  exact ⟨rfl, rfl⟩

theorem noDigitNext_fieldsAfter (fields : List (String × Value)) :
    NoDigitNext (Value.fieldsAfter fields) := by
  cases fields with
  | nil => simp [NoDigitNext, Value.fieldsAfter]
  | cons f fields =>
    obtain ⟨key, v⟩ := f
    simp [NoDigitNext, Value.fieldsAfter]

section Fields

variable {key : String} {v w : Value} {fields fields' : List (String × Value)}

/-- A field and those after it, under the same key. -/
theorem field_inj (hv : v.Scalar) (hw : w.Scalar)
    (h : quoted key.toList ++ ':' :: v.chars ++ Value.fieldsAfter fields =
      quoted key.toList ++ ':' :: w.chars ++ Value.fieldsAfter fields') :
    v = w ∧ Value.fieldsAfter fields = Value.fieldsAfter fields' := by
  simp only [List.append_assoc, List.append_cancel_left_eq, List.cons_append, List.cons.injEq,
    true_and] at h
  exact chars_append_inj hv hw (noDigitNext_fieldsAfter _) (noDigitNext_fieldsAfter _) h

theorem fieldsAfter_inj (hkeys : fields.map Prod.fst = fields'.map Prod.fst)
    (hfields : ∀ f ∈ fields, f.2.Scalar) (hfields' : ∀ f ∈ fields', f.2.Scalar)
    (h : Value.fieldsAfter fields = Value.fieldsAfter fields') : fields = fields' := by
  induction fields generalizing fields' with
  | nil => exact (List.map_eq_nil_iff.mp hkeys.symm).symm
  | cons f fields ih =>
    cases fields' with
    | nil => cases hkeys
    | cons g fields' =>
      obtain ⟨key, v⟩ := f
      obtain ⟨key', w⟩ := g
      simp only [List.map_cons, List.cons.injEq] at hkeys
      obtain ⟨rfl, hkeys⟩ := hkeys
      rw [Value.fieldsAfter, Value.fieldsAfter] at h
      obtain ⟨rfl, hrest⟩ := field_inj (hfields _ List.mem_cons_self)
        (hfields' _ List.mem_cons_self) (List.tail_eq_of_cons_eq h)
      rw [ih hkeys (fun f hf => hfields f (List.mem_cons_of_mem _ hf))
        (fun f hf => hfields' f (List.mem_cons_of_mem _ hf)) hrest]

end Fields

/-! ## What is relied on -/

/-- **No two values are written alike**: of those that are no containers, and of objects of such
with the same keys. -/
structure JsonText (text : Value → String) : Prop where
  scalar {v w : Value} : v.Scalar → w.Scalar → text v = text w → v = w
  object {fields fields' : List (String × Value)} : fields.map Prod.fst = fields'.map Prod.fst →
    (∀ f ∈ fields, f.2.Scalar) → (∀ f ∈ fields', f.2.Scalar) →
    text (.object fields) = text (.object fields') → fields = fields'

theorem jsonText : JsonText Value.text where
  scalar {v w} hv hw h := by
    have hchars : v.chars ++ [] = w.chars ++ [] := by
      rw [List.append_nil, List.append_nil]
      exact String.ofList_injective h
    exact (chars_append_inj hv hw (by simp [NoDigitNext]) (by simp [NoDigitNext]) hchars).1
  object {fields fields'} hkeys hfields hfields' h := by
    have hchars : (Value.object fields).chars = (Value.object fields').chars :=
      String.ofList_injective h
    have hafter : Value.fieldsAfter fields = Value.fieldsAfter fields' := by
      rcases fields with _ | ⟨⟨key, v⟩, fields⟩ <;> rcases fields' with _ | ⟨⟨key', w⟩, fields'⟩
      · rfl
      · cases hkeys
      · cases hkeys
      · rw [Value.chars, Value.chars] at hchars
        rw [Value.fieldsAfter, Value.fieldsAfter]
        exact congrArg (List.cons ',') (List.tail_eq_of_cons_eq hchars)
    exact fieldsAfter_inj hkeys hfields hfields' hafter

end GumServer
