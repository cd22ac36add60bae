import GoPackages.Proofs.StructTag.Grammar
import Mathlib.Data.List.TakeWhile
import Mathlib.Tactic.Ring

/-!
# Decoding accepts the grammar

A value is scanned for its closing quote, then its escapes are replaced, then it is cut at its
commas. Each pass is characterised by itself: the scan finds the first quote that no backslash
guards, and on such a body the replacement of escapes succeeds exactly for sequences of items.
-/
namespace GoPackages.StructTag

theorem exists_offset {first last c : Char} (h : first ≤ c ∧ c ≤ last) :
    ∃ k ≤ last.toNat - first.toNat, c = Char.ofNat (first.toNat + k) ∧
      c.toNat - first.toNat = k := by
  have hfirst : first.toNat ≤ c.toNat := Char.le_def.mp h.1
  have hlast : c.toNat ≤ last.toNat := Char.le_def.mp h.2
  refine ⟨c.toNat - first.toNat, by omega, ?_, rfl⟩
  rw [Nat.add_sub_cancel' hfirst, Char.ofNat_toNat]

theorem hexDigit?_eq_some_iff {c : Char} {d : Nat} : hexDigit? c = some d ↔ IsHexDigit c d := by
  constructor
  · intro h
    unfold hexDigit? at h
    split at h
    next hc =>
      have hall : ∀ k ≤ '9'.toNat - '0'.toNat, IsHexDigit (Char.ofNat ('0'.toNat + k)) k := by
        decide
      obtain ⟨k, hk, rfl, hd⟩ := exists_offset hc
      rw [hd] at h
      exact Option.some.inj h ▸ hall k hk
    split at h
    next hc =>
      have hall : ∀ k ≤ 'f'.toNat - 'a'.toNat,
          IsHexDigit (Char.ofNat ('a'.toNat + k)) (k + 10) := by decide
      obtain ⟨k, hk, rfl, hd⟩ := exists_offset hc
      rw [hd] at h
      exact Option.some.inj h ▸ hall k hk
    split at h
    next hc =>
      have hall : ∀ k ≤ 'F'.toNat - 'A'.toNat,
          IsHexDigit (Char.ofNat ('A'.toNat + k)) (k + 10) := by decide
      obtain ⟨k, hk, rfl, hd⟩ := exists_offset hc
      rw [hd] at h
      exact Option.some.inj h ▸ hall k hk
    · cases h
  · have hall : ∀ d < 16, hexDigit? d.digitChar = some d ∧
        hexDigit? d.digitChar.toUpper = some d := by decide
    rintro ⟨hd, rfl | rfl⟩
    · exact (hall d hd).1
    · exact (hall d hd).2

theorem hexValue?_eq_some_iff {acc n : Nat} {cs : List Char} :
    hexValue? acc cs = some n ↔ ∃ ds, List.Forall₂ IsHexDigit cs ds ∧
      n = acc * 16 ^ cs.length + Nat.ofDigits 16 ds.reverse := by
  induction cs generalizing acc with
  | nil =>
    simp only [hexValue?, List.forall₂_nil_left_iff, Option.some.injEq]
    constructor
    · rintro rfl
      exact ⟨[], rfl, by simp⟩
    · rintro ⟨ds, rfl, rfl⟩
      simp
  | cons c rest ih =>
    -- the first digit counts as often as there are texts of the other digits
    have hfirst : ∀ (d : Nat) (ds : List Nat), List.Forall₂ IsHexDigit rest ds →
        (acc * 16 + d) * 16 ^ rest.length + Nat.ofDigits 16 ds.reverse =
          acc * 16 ^ (rest.length + 1) + Nat.ofDigits 16 (d :: ds).reverse := by
      intro d ds hds
      rw [List.reverse_cons, Nat.ofDigits_append, List.length_reverse, ← hds.length_eq,
        Nat.ofDigits_singleton]
      ring
    simp only [hexValue?, Option.bind_eq_some_iff, ih, hexDigit?_eq_some_iff]
    constructor
    · rintro ⟨d, hd, ds, hds, rfl⟩
      exact ⟨d :: ds, .cons hd hds, hfirst d ds hds⟩
    · rintro ⟨_, hall, rfl⟩
      obtain ⟨d, ds, hd, hds, rfl⟩ := List.forall₂_cons_left_iff.mp hall
      exact ⟨d, hd, ds, hds, (hfirst d ds hds).symm⟩

theorem hexValue?_zero_iff {cs : List Char} {n : Nat} :
    hexValue? 0 cs = some n ↔ WritesHex cs n := by
  simp [hexValue?_eq_some_iff, WritesHex]

theorem scalar?_eq_some_iff {n : Nat} {c : Char} : scalar? n = some c ↔ n = c.toNat := by
  unfold scalar?
  split
  next h =>
    rw [Option.some.injEq]
    constructor
    · rintro rfl
      rw [Char.ofNat, dif_pos h]
      rfl
    · rintro rfl
      exact Char.ofNat_toNat c
  next h =>
    constructor
    · intro hc
      cases hc
    · rintro rfl
      exact absurd c.valid h

theorem hexChar?_eq_some_iff {width : Nat} {cs : List Char} {c : Char} :
    hexChar? width cs = some c ↔ width ≤ cs.length ∧ WritesHex (cs.take width) c.toNat := by
  unfold hexChar?
  split
  next h =>
    constructor
    · intro hc
      cases hc
    · rintro ⟨hle, -⟩
      omega
  next h =>
    simp only [Option.bind_eq_some_iff, hexValue?_zero_iff, scalar?_eq_some_iff]
    constructor
    · rintro ⟨n, hn, rfl⟩
      exact ⟨by omega, hn⟩
    · rintro ⟨-, hn⟩
      exact ⟨_, hn, rfl⟩

theorem simpleEscape?_eq_some_iff {escape c : Char} :
    simpleEscape? escape = some c ↔ (escape, c) ∈ letterEscapes := by
  unfold simpleEscape?
  split <;> simp_all [letterEscapes, eq_comm]

theorem hexWidth?_eq_some_iff {escape : Char} {width : Nat} :
    hexWidth? escape = some width ↔ (escape, width) ∈ numericEscapes := by
  unfold hexWidth?
  split <;> simp_all [numericEscapes, eq_comm]

theorem simpleEscape?_of_numeric {escape : Char} {width : Nat}
    (h : (escape, width) ∈ numericEscapes) : simpleEscape? escape = none := by
  have hall : ∀ e ∈ numericEscapes, simpleEscape? e.1 = none := by decide
  exact hall _ h

/-- No quote stands in the body and no backslash at its end, other than behind a backslash that
counts for it. -/
inductive Guarded : List Char → Prop where
  | nil : Guarded []
  | plain {c cs} : c ≠ '\\' → c ≠ '"' → Guarded cs → Guarded (c :: cs)
  | escape {c cs} : Guarded cs → Guarded ('\\' :: c :: cs)

theorem guarded_cons_iff {c : Char} {cs : List Char} (hb : c ≠ '\\') (hq : c ≠ '"') :
    Guarded (c :: cs) ↔ Guarded cs := by
  constructor
  · intro h
    cases h with
    | plain _ _ h => exact h
    | escape h => exact absurd rfl hb
  · exact .plain hb hq

theorem guarded_append_iff {a cs : List Char} (h : ∀ c ∈ a, c ≠ '\\' ∧ c ≠ '"') :
    Guarded (a ++ cs) ↔ Guarded cs := by
  induction a with
  | nil => exact Iff.rfl
  | cons c rest ih =>
    obtain ⟨hb, hq⟩ := h c List.mem_cons_self
    rw [List.cons_append, guarded_cons_iff hb hq]
    exact ih fun c hc => h c (List.mem_cons_of_mem _ hc)

theorem guarded_items (items : List Item) : Guarded (items.flatMap Item.written) := by
  induction items with
  | nil => exact .nil
  | cons item rest ih =>
    cases item with
    | plain c ordinary => exact .plain ordinary.1 ordinary.2 ih
    | letter escape c known => exact .escape ih
    | numeric escape digits c known writes =>
      exact .escape ((guarded_append_iff writes.ordinary).mpr ih)

theorem scanBody_of_guarded {body : List Char} (h : Guarded body) (rest : List Char) :
    scanBody (body ++ '"' :: rest) = some (body, rest) := by
  induction h with
  | nil => rfl
  | @plain c cs hb hq _ ih =>
    rw [List.cons_append, scanBody, ih, Option.map_some]
    · exact hq
    · intro c' rest' hc
      exact absurd hc hb
  | @escape c cs _ ih => rw [List.cons_append, List.cons_append, scanBody, ih, Option.map_some]

theorem guarded_of_scanBody {cs body rest : List Char} (h : scanBody cs = some (body, rest)) :
    Guarded body := by
  fun_induction scanBody cs generalizing body with
  | case1 => cases h
  | case2 r =>
    obtain ⟨rfl, -⟩ := Prod.mk.inj (Option.some.inj h)
    exact .nil
  | case3 c r ih =>
    obtain ⟨found, hf, he⟩ := Option.map_eq_some_iff.mp h
    obtain ⟨rfl, rfl⟩ := Prod.mk.inj he
    exact .escape (ih hf)
  | case4 c r hq hb ih =>
    obtain ⟨found, hf, he⟩ := Option.map_eq_some_iff.mp h
    obtain ⟨rfl, rfl⟩ := Prod.mk.inj he
    refine .plain ?_ (fun hc => hq hc) (ih hf)
    rintro rfl
    -- a backslash that nothing follows leaves nothing to find the quote in
    cases r with
    | nil => cases hf
    | cons c' r => exact hb c' r rfl rfl

theorem scanBody_eq_some_iff {cs body rest : List Char} :
    scanBody cs = some (body, rest) ↔ Guarded body ∧ cs = body ++ '"' :: rest := by
  constructor
  · intro h
    exact ⟨guarded_of_scanBody h, eq_of_scanBody h⟩
  · rintro ⟨h, rfl⟩
    exact scanBody_of_guarded h rest

theorem unquote_items (items : List Item) :
    unquote (items.flatMap Item.written) = .ok (items.map Item.char) := by
  induction items with
  | nil => rw [List.flatMap_nil, unquote, List.map_nil]
  | cons item rest ih =>
    rw [List.flatMap_cons, List.map_cons]
    cases item with
    | plain c ordinary =>
      rw [Item.written, List.singleton_append, unquote, ih]
      · rfl
      · intro h
        exact absurd h ordinary.1
      · intro escape rest' h
        exact absurd h ordinary.1
    | letter escape c known =>
      have hc := simpleEscape?_eq_some_iff.mpr known
      simp only [Item.written, List.cons_append, List.nil_append, unquote, hc, ih]
      rfl
    | numeric escape digits c known writes =>
      have hw := hexWidth?_eq_some_iff.mpr known
      have hc : hexChar? digits.length (digits ++ rest.flatMap Item.written) = some c := by
        rw [hexChar?_eq_some_iff, List.take_left]
        exact ⟨by simp, writes⟩
      simp only [Item.written, List.cons_append, unquote, simpleEscape?_of_numeric known, hw, hc,
        Option.bind_some, Option.map_some, List.drop_left, ih]
      rfl

theorem items_of_unquote {body text : List Char} (hg : Guarded body)
    (h : unquote body = .ok text) :
    ∃ items : List Item, items.flatMap Item.written = body ∧ items.map Item.char = text := by
  have hrest : ∀ {r : Except Char (List Char)} {c : Char} {text : List Char},
      r.map (c :: ·) = .ok text → ∃ tail, r = .ok tail ∧ text = c :: tail := by
    intro r c text h
    cases r with
    | error e => cases h
    | ok tail => exact ⟨tail, rfl, (Except.ok.inj h).symm⟩
  fun_induction unquote body generalizing text with
  | case1 => exact ⟨[], rfl, Except.ok.inj h⟩
  | case2 => cases h
  | case3 escape rest c hc ih =>
    obtain ⟨tail, htail, rfl⟩ := hrest h
    cases hg with
    | plain hb _ _ => exact absurd rfl hb
    | escape hg =>
      obtain ⟨items, rfl, rfl⟩ := ih hg htail
      exact ⟨.letter escape c (simpleEscape?_eq_some_iff.mp hc) :: items, rfl, rfl⟩
  | case4 escape rest _ width c hc ih =>
    obtain ⟨tail, htail, rfl⟩ := hrest h
    obtain ⟨w, hw, hmap⟩ := Option.bind_eq_some_iff.mp hc
    obtain ⟨c', hhex, heq⟩ := Option.map_eq_some_iff.mp hmap
    obtain ⟨rfl, rfl⟩ := Prod.mk.inj heq
    obtain ⟨hle, hwrites⟩ := hexChar?_eq_some_iff.mp hhex
    cases hg with
    | plain hb _ _ => exact absurd rfl hb
    | escape hg =>
      rw [← List.take_append_drop w rest, guarded_append_iff hwrites.ordinary] at hg
      obtain ⟨items, hbody, rfl⟩ := ih hg htail
      have hknown : (escape, (rest.take w).length) ∈ numericEscapes := by
        rw [List.length_take_of_le hle]
        exact hexWidth?_eq_some_iff.mp hw
      refine ⟨.numeric escape (rest.take w) c' hknown hwrites :: items, ?_, rfl⟩
      rw [List.flatMap_cons, hbody, Item.written, List.cons_append, List.cons_append,
        List.take_append_drop]
  | case5 => cases h
  | case6 c rest hb hb' ih =>
    obtain ⟨tail, htail, rfl⟩ := hrest h
    cases hg with
    | plain hplain hq hg =>
      obtain ⟨items, rfl, rfl⟩ := ih hg htail
      exact ⟨.plain c ⟨hplain, hq⟩ :: items, rfl, rfl⟩
    | escape _ => exact absurd rfl (hb' _ _ rfl)

theorem isKeyChar_iff {c : Char} : isKeyChar c = true ↔ IsKeyChar c := by
  have hspace : ' ' < c ↔ 0x20 < c.toNat := Char.lt_def
  have hdelete : c ≠ '\x7f' ↔ c.toNat ≠ 0x7f := by
    rw [Ne, Ne, ← Char.toNat_inj]
    rfl
  simp [isKeyChar, IsKeyChar, hspace, hdelete, and_assoc]

theorem span_run {p : Char → Bool} {run rest : List Char} (hrun : ∀ c ∈ run, p c = true)
    (hrest : ∀ c, rest.head? = some c → p c = false) :
    (run ++ rest).takeWhile p = run ∧ (run ++ rest).dropWhile p = rest := by
  rw [List.takeWhile_append_of_pos hrun, List.dropWhile_append_of_pos hrun]
  cases rest with
  | nil => simp
  | cons c rest => simp [hrest c rfl]

theorem span_key {key : List Char} (hkey : ∀ c ∈ key, IsKeyChar c) (cs : List Char) :
    (key ++ ':' :: cs).takeWhile isKeyChar = key ∧
      (key ++ ':' :: cs).dropWhile isKeyChar = ':' :: cs := by
  refine span_run (fun c hc => isKeyChar_iff.mpr (hkey c hc)) fun c hc => ?_
  obtain rfl : ':' = c := Option.some.inj hc
  decide

theorem Pair.byteLength_written (p : Pair) :
    Text.byteLength p.written =
      Text.byteLength p.key + 2 + Text.byteLength (p.body.flatMap Item.written) + 1 := by
  have hcolon : ':'.utf8Size = 1 := by decide
  have hquote : '"'.utf8Size = 1 := by decide
  simp only [written, Text.byteLength_append, Text.byteLength, hcolon, hquote]
  omega

/-- A pair is read exactly where one is written, whatever follows it. -/
theorem readPair_eq_ok_iff {position size : Nat} {cs rest : List Char} {param : TagParam} :
    readPair position cs = .ok (param, size, rest) ↔
      ∃ p : Pair, cs = p.written ++ rest ∧ p.Gives param ∧ size = Text.byteLength p.written := by
  constructor
  · intro h
    simp only [readPair] at h
    split at h
    · cases h
    next hkey =>
      split at h
      next value hvalue =>
        split at h
        · cases h
        next body after hscan =>
          split at h
          · cases h
          next text htext =>
            obtain ⟨rfl, hsize, rfl⟩ : _ ∧ _ ∧ _ := by simpa using h
            obtain ⟨hguarded, rfl⟩ := scanBody_eq_some_iff.mp hscan
            obtain ⟨items, rfl, rfl⟩ := items_of_unquote hguarded htext
            let p : Pair := {
              key := cs.takeWhile isKeyChar
              key_ne_nil := fun hnil => hkey (by rw [hnil]; rfl)
              key_chars := fun c hc => isKeyChar_iff.mp (List.mem_takeWhile_imp hc)
              body := items }
            refine ⟨p, ?_, Pair.gives_iff.mpr rfl, ?_⟩
            · rw [← List.takeWhile_append_dropWhile (p := isKeyChar) (l := cs), hvalue]
              simp [p, Pair.written]
            · rw [Pair.byteLength_written, ← hsize]
      · cases h
      · cases h
  · rintro ⟨p, rfl, hgives, rfl⟩
    have hcs : p.written ++ rest =
        p.key ++ ':' :: '"' :: (p.body.flatMap Item.written ++ '"' :: rest) := by
      simp [Pair.written]
    obtain ⟨htake, hdrop⟩ :=
      span_key p.key_chars ('"' :: (p.body.flatMap Item.written ++ '"' :: rest))
    have hkey : p.key.isEmpty = false := by simpa using p.key_ne_nil
    have hscan := scanBody_of_guarded (guarded_items p.body) rest
    have hparam := Pair.gives_iff.mp hgives
    rw [hcs, readPair]
    simp only [htake, hdrop, hkey, hscan, unquote_items]
    rw [← Pair.text, hparam, Pair.byteLength_written]
    rfl

theorem span_spaces (n : Nat) {cs : List Char} (h : cs.head? ≠ some ' ') :
    (spaces n ++ cs).takeWhile (· == ' ') = spaces n ∧
      (spaces n ++ cs).dropWhile (· == ' ') = cs := by
  refine span_run (fun c hc => beq_iff_eq.mpr (List.eq_of_mem_replicate hc)) fun c hc => ?_
  rw [beq_eq_false_iff_ne]
  rintro rfl
  exact h hc

theorem exists_spaces (cs : List Char) :
    ∃ n rest, cs = spaces n ++ rest ∧ rest.head? ≠ some ' ' := by
  induction cs with
  | nil => exact ⟨0, [], rfl, by simp⟩
  | cons c cs ih =>
    by_cases hc : c = ' '
    · obtain ⟨n, rest, rfl, hrest⟩ := ih
      exact ⟨n + 1, rest, by rw [hc]; rfl, hrest⟩
    · exact ⟨0, c :: cs, rfl, by simpa using hc⟩

theorem decodeFrom_spaces (position n : Nat) {cs : List Char} (h : cs.head? ≠ some ' ') :
    decodeFrom position (spaces n ++ cs) =
      if cs = [] then .ok []
      else
        match readPair (position + n) cs with
        | .error e => .error e
        | .ok (param, size, rest) => (decodeFrom (position + n + size) rest).map (param :: ·) := by
  obtain ⟨htake, hdrop⟩ := span_spaces n h
  have hlength : (spaces n).length = n := List.length_replicate
  rw [decodeFrom]
  simp only [hdrop, List.isEmpty_iff]
  split
  · rfl
  · simp only [htake, hlength]
    split <;> simp_all

theorem head?_key {key : List Char} (hne : key ≠ []) (hkey : ∀ c ∈ key, IsKeyChar c)
    (cs : List Char) : (key ++ cs).head? ≠ some ' ' := by
  obtain ⟨c, rest, rfl⟩ := List.exists_cons_of_ne_nil hne
  intro h
  obtain rfl : c = ' ' := by simpa using h
  exact absurd (hkey ' ' List.mem_cons_self).1 (by decide)

/-- A text is read if only spaces are left, or if a pair stands behind them and what follows the
pair is read. -/
theorem decodeFrom_eq_ok_iff {position : Nat} {cs : List Char} {params : List TagParam} :
    decodeFrom position cs = .ok params ↔
      (∃ n, cs = spaces n ∧ params = []) ∨
      ∃ n p param rest tail, cs = spaces n ++ (Pair.written p ++ rest) ∧ p.Gives param ∧
        decodeFrom (position + n + Text.byteLength p.written) rest = .ok tail ∧
        params = param :: tail := by
  constructor
  · obtain ⟨n, cs, rfl, hhead⟩ := exists_spaces cs
    rw [decodeFrom_spaces position n hhead]
    intro h
    split at h
    next hnil => exact .inl ⟨n, by rw [hnil, List.append_nil], (Except.ok.inj h).symm⟩
    next =>
      split at h
      · cases h
      next param size rest hread =>
        obtain ⟨p, rfl, hgives, rfl⟩ := readPair_eq_ok_iff.mp hread
        cases htail : decodeFrom (position + n + Text.byteLength p.written) rest with
        | error e => rw [htail] at h; cases h
        | ok tail =>
          rw [htail] at h
          exact .inr ⟨n, p, param, rest, tail, rfl, hgives, htail, (Except.ok.inj h).symm⟩
  · rintro (⟨n, rfl, rfl⟩ | ⟨n, p, param, rest, tail, rfl, hgives, htail, rfl⟩)
    · rw [← List.append_nil (spaces n), decodeFrom_spaces position n (by simp), if_pos rfl]
    · have hread : readPair (position + n) (p.written ++ rest) =
          .ok (param, Text.byteLength p.written, rest) :=
        readPair_eq_ok_iff.mpr ⟨p, rfl, hgives, rfl⟩
      have hne : p.written ++ rest ≠ [] := by simp [Pair.written]
      have hhead : (p.written ++ rest).head? ≠ some ' ' := by
        rw [Pair.written, List.append_assoc]
        exact head?_key p.key_ne_nil p.key_chars _
      rw [decodeFrom_spaces position n hhead, if_neg hne, hread]
      simp only [htail]
      rfl

@[simp] theorem decodeFrom_blank (position n : Nat) : decodeFrom position (spaces n) = .ok [] :=
  decodeFrom_eq_ok_iff.mpr (.inl ⟨n, rfl, rfl⟩)

theorem decode_blank (n : Nat) : decode (String.ofList (spaces n)) = .ok [] := by
  simp [decode]

theorem Layout.written_cons (n : Nat) (p : Pair) (pairs : List (Nat × Pair)) (trailing : Nat) :
    (Layout.mk ((n, p) :: pairs) trailing).written =
      spaces n ++ (p.written ++ (Layout.mk pairs trailing).written) := by
  simp [written]

theorem decodeFrom_written {pairs : List (Nat × Pair)} {params : List TagParam}
    (h : List.Forall₂ (fun p param => p.2.Gives param) pairs params) (trailing position : Nat) :
    decodeFrom position (Layout.mk pairs trailing).written = .ok params := by
  induction h generalizing position with
  | nil => exact decodeFrom_blank position trailing
  | @cons p param pairs params hp _ ih =>
    refine decodeFrom_eq_ok_iff.mpr (.inr ⟨p.1, p.2, param, _, params, ?_, hp, ih _, rfl⟩)
    exact Layout.written_cons p.1 p.2 pairs trailing

/-- A text that is read is a tag of the grammar. -/
theorem layout_of_decodeFrom {position : Nat} {cs : List Char} {params : List TagParam}
    (h : decodeFrom position cs = .ok params) : ∃ l : Layout, l.written = cs := by
  induction params generalizing position cs with
  | nil =>
    rcases decodeFrom_eq_ok_iff.mp h with ⟨n, rfl, -⟩ | ⟨_, _, _, _, _, _, _, _, hne⟩
    · exact ⟨⟨[], n⟩, rfl⟩
    · cases hne
  | cons param params ih =>
    rcases decodeFrom_eq_ok_iff.mp h with ⟨_, _, hne⟩ | ⟨n, p, _, rest, tail, rfl, _, htail, heq⟩
    · cases hne
    · obtain ⟨-, rfl⟩ := List.cons.inj heq
      obtain ⟨⟨pairs, trailing⟩, rfl⟩ := ih htail
      exact ⟨⟨(n, p) :: pairs, trailing⟩, Layout.written_cons n p pairs trailing⟩

theorem Layout.exists_gives (pairs : List (Nat × Pair)) :
    ∃ params, List.Forall₂ (fun p param => p.2.Gives param) pairs params := by
  induction pairs with
  | nil => exact ⟨[], .nil⟩
  | cons p pairs ih =>
    obtain ⟨params, h⟩ := ih
    exact ⟨_ :: params, .cons (Pair.gives_iff.mpr rfl) h⟩

/-- Exactly the texts of the grammar are read, with one parameter for each pair, in order, named
by its key and cut at the commas of its text. The value of a numeric escape is at no moment of
its computation larger than 32 bits hold. -/
theorem accepts_exactly_the_grammar (raw : String) :
    ((∃ params, decode raw = .ok params) ↔ ∃ l : Layout, l.written = raw.toList) ∧
    (∀ (l : Layout) params, l.written = raw.toList → decode raw = .ok params →
      List.Forall₂ (fun p param => p.2.Gives param) l.pairs params) ∧
    (∀ escape width digits value, hexWidth? escape = some width → digits.length < width →
      hexValue? 0 digits = some value → value * 16 < 2 ^ 32 ∧
        ∀ c digit, hexDigit? c = some digit → value * 16 + digit < 2 ^ 32) := by
  have hcomplete : ∀ l : Layout, l.written = raw.toList → ∃ params, decode raw = .ok params ∧
      List.Forall₂ (fun p param => p.2.Gives param) l.pairs params := by
    intro l hl
    obtain ⟨params, hparams⟩ := Layout.exists_gives l.pairs
    exact ⟨params, by rw [decode, ← hl]; exact decodeFrom_written hparams l.trailing 0, hparams⟩
  refine ⟨⟨?_, ?_⟩, ?_, ?_⟩
  · rintro ⟨params, h⟩
    exact layout_of_decodeFrom h
  · rintro ⟨l, hl⟩
    obtain ⟨params, h, -⟩ := hcomplete l hl
    exact ⟨params, h⟩
  · intro l params hl h
    obtain ⟨params', h', hgives⟩ := hcomplete l hl
    obtain rfl := Except.ok.inj (h.symm.trans h')
    exact hgives
  · intro escape width digits value hwidth hlt hvalue
    have hmost : width ≤ 8 := by
      have hall : ∀ e ∈ numericEscapes, e.2 ≤ 8 := by decide
      exact hall _ (hexWidth?_eq_some_iff.mp hwidth)
    have hpow : 16 ^ (digits.length + 1) ≤ 16 ^ 8 := Nat.pow_le_pow_right (by decide) (by omega)
    have hless := (hexValue?_zero_iff.mp hvalue).lt
    rw [Nat.pow_succ] at hpow
    refine ⟨by omega, fun c digit hdigit => ?_⟩
    have := (hexDigit?_eq_some_iff.mp hdigit).1
    omega

/-- A key beyond the first 128 characters, numeric escapes, an escaped quote and a comma that is
written as an escape, then a pair without a space before it. -/
def escapedComma : Layout where
  pairs := [
    (1, {
      key := ['k', 'ä']
      key_ne_nil := by simp
      key_chars := by simp [IsKeyChar]
      body := [
        .numeric 'u' ['0', '0', 'E', '9'] 'é' (by decide) (hexValue?_zero_iff.mp rfl),
        .letter '"' '"' quote_mem_letterEscapes,
        .numeric 'x' ['2', 'c'] ',' (by decide) (hexValue?_zero_iff.mp rfl),
        .plain 'b' (by decide)] }),
    (0, { key := ['d', 'b'], key_ne_nil := by simp, key_chars := by simp [IsKeyChar], body := [] })]
  trailing := 2

theorem escapedComma_is_read :
    decode " kä:\"\\u00E9\\\"\\x2cb\"db:\"\"  " = .ok [⟨"kä", "é\"", ["b"]⟩, ⟨"db", "", []⟩] ∧
    0xFFFFFFF * 16 < 2 ^ 32 := by
  obtain ⟨haccept, hread, hsmall⟩ :=
    accepts_exactly_the_grammar " kä:\"\\u00E9\\\"\\x2cb\"db:\"\"  "
  have hwritten : escapedComma.written = " kä:\"\\u00E9\\\"\\x2cb\"db:\"\"  ".toList := rfl
  obtain ⟨params, hparams⟩ := haccept.mpr ⟨escapedComma, hwritten⟩
  have hlast : hexValue? 0 (List.replicate 7 'F') = some 0xFFFFFFF := rfl
  refine ⟨?_, (hsmall 'U' 8 (List.replicate 7 'F') _ rfl (by decide) hlast).1⟩
  rw [hparams]
  cases hread escapedComma params hwritten hparams with
  | cons hfirst hrest =>
    cases hrest with
    | cons hsecond hnil =>
      cases hnil
      rw [← Pair.gives_iff.mp hfirst, ← Pair.gives_iff.mp hsecond]
      rfl

end GoPackages.StructTag
