import Mathlib.Data.List.TakeWhile

/-!
# The path of a URL

A URL that begins with one slash is read as the URL standard says: tabs and line
breaks are dropped, the query and the fragment cut off, the rest is split at
slashes of either kind, and dot segments are resolved (`pathSegments`). A
segment is sent with some of its bytes escaped (`percentEncode`), and the
receiver undoes escapes (`percentDecode`): those of the sender and those that
the text had from the start alike (`percentDecode_percentEncode`).

`mem_pathSegments_join` is what becomes of segments of any text that are joined
by slashes; those without delimiters stay what they are (`pathSegments_join`).
-/

namespace MikanJudge.Lib.Url

/-! ## Segments -/

/-- A tab or a line break. -/
def isDropped (b : UInt8) : Bool := b == 9 || b == 10 || b == 13

/-- What ends the path: a question mark or a number sign. -/
def endsPath (b : UInt8) : Bool := b == 63 || b == 35

/-- A slash or a backslash. -/
def isSlash (b : UInt8) : Bool := b == 47 || b == 92

def pathText (url : List UInt8) : List UInt8 := (url.filter (!isDropped ·)).takeWhile (!endsPath ·)

/-- What the slashes of a path separate. -/
def rawSegments (url : List UInt8) : List (List UInt8) := ((pathText url).splitOnP isSlash).tail

/-- A dot, as it is and escaped. -/
def dots : List (List UInt8) := [[46], [37, 50, 69], [37, 50, 101]]

def isSingleDot (seg : List UInt8) : Bool := dots.contains seg

def isDoubleDot (seg : List UInt8) : Bool := (dots.flatMap fun d => dots.map (d ++ ·)).contains seg

def isDot (seg : List UInt8) : Bool := isSingleDot seg || isDoubleDot seg

/-- Two dots go up, and a dot segment that is the last leaves an empty one. -/
def afterDot (path : List (List UInt8)) (seg : List UInt8) (last : Bool) : List (List UInt8) :=
  (if isDoubleDot seg then path.dropLast else path) ++ if last then [[]] else []

/-- The segments of a path, after `path`. -/
def resolveDots (path : List (List UInt8)) : List (List UInt8) → List (List UInt8)
  | [] => path
  | seg :: segs =>
    resolveDots (if isDot seg then afterDot path seg segs.isEmpty else path ++ [seg]) segs

def pathSegments (url : List UInt8) : List (List UInt8) := resolveDots [] (rawSegments url)

/-- Segments with a slash before each. -/
def join (segs : List (List UInt8)) : List UInt8 := segs.flatMap (47 :: ·)

/-- A byte that stays where it is in a segment. -/
def isPlain (b : UInt8) : Bool := !isDropped b && !endsPath b && !isSlash b

@[simp] theorem join_nil : join [] = [] := rfl

@[simp] theorem join_cons (seg : List UInt8) (segs : List (List UInt8)) :
    join (seg :: segs) = 47 :: (seg ++ join segs) := rfl

theorem pathText_cons_slash (bs : List UInt8) : pathText (47 :: bs) = 47 :: pathText bs := rfl

theorem pathText_append (bs bs' : List UInt8) :
    pathText (bs ++ bs') = if bs.all (!endsPath ·) then pathText bs ++ pathText bs'
      else pathText bs := by
  have hdropped : ∀ b, isDropped b = true → endsPath b = false := by
    intro b h
    simp only [isDropped, Bool.or_eq_true, beq_iff_eq] at h
    rcases h with (rfl | rfl) | rfl <;> rfl
  induction bs with
  | nil => simp [pathText]
  | cons b bs ih =>
    rw [pathText] at ih ⊢
    cases hd : isDropped b with
    | true => simpa [pathText, hd, hdropped b hd] using ih
    | false =>
      cases he : endsPath b with
      | true => simp [pathText, hd, he]
      | false =>
        simp only [pathText, List.cons_append, List.filter_cons, hd, Bool.not_false, if_true,
          List.takeWhile_cons, he, List.all_cons, Bool.true_and] at ih ⊢
        rw [ih]
        split_ifs <;> rfl

theorem pathText_sublist (bs : List UInt8) : (pathText bs).Sublist bs :=
  (List.takeWhile_sublist _).trans List.filter_sublist

theorem rawSegments_cons_slash (bs : List UInt8) :
    rawSegments (47 :: bs) = (pathText bs).splitOnP isSlash := by
  rw [rawSegments, pathText_cons_slash, List.splitOnP_cons_eq_if_modifyHead]
  rfl

theorem splitOnP_forall {p : UInt8 → Bool} {l : List UInt8} :
    ∀ seg ∈ l.splitOnP p, seg.Sublist l ∧ ∀ b ∈ seg, p b = false := by
  induction l with
  | nil => simp
  | cons b l ih =>
    rw [List.splitOnP_cons_eq_if_modifyHead]
    cases hb : p b with
    | true =>
      intro seg hseg
      rcases List.mem_cons.mp hseg with rfl | hseg
      · exact ⟨List.nil_sublist _, fun _ h => absurd h List.not_mem_nil⟩
      · exact ⟨(ih seg hseg).1.trans (List.sublist_cons_self _ _), (ih seg hseg).2⟩
    | false =>
      obtain ⟨first, segs, hsplit⟩ := List.exists_cons_of_ne_nil (List.splitOnP_ne_nil p l)
      rw [hsplit] at ih ⊢
      rw [List.forall_mem_cons] at ih
      refine List.forall_mem_cons.mpr ⟨⟨ih.1.1.cons_cons b, ?_⟩, fun seg hseg => ?_⟩
      · exact List.forall_mem_cons.mpr ⟨hb, ih.1.2⟩
      · exact ⟨(ih.2 seg hseg).1.trans (List.sublist_cons_self _ _), (ih.2 seg hseg).2⟩

/-- What the slashes separate comes from one of the segments that were joined. -/
theorem mem_rawSegments_join {segs : List (List UInt8)} :
    ∀ seg ∈ rawSegments (join segs), ∃ s ∈ segs, seg.Sublist (pathText s) ∧
      ∀ b ∈ seg, isSlash b = false := by
  induction segs with
  | nil => exact fun _ h => absurd h List.not_mem_nil
  | cons s segs ih =>
    have hs : ∀ seg ∈ (pathText s).splitOnP isSlash, ∃ s' ∈ s :: segs, seg.Sublist (pathText s') ∧
        ∀ b ∈ seg, isSlash b = false :=
      fun seg hseg => ⟨s, List.mem_cons_self, splitOnP_forall seg hseg⟩
    rw [join_cons, rawSegments_cons_slash, pathText_append]
    split_ifs with hend
    · cases segs with
      | nil =>
        rw [join_nil, show pathText [] = [] from rfl, List.append_nil]
        exact hs
      | cons s' segs =>
        rw [join_cons, rawSegments_cons_slash] at ih
        rw [join_cons, pathText_cons_slash, List.splitOnP_append_cons _ _ (by rfl)]
        intro seg hseg
        rcases List.mem_append.mp hseg with hseg | hseg
        · exact hs seg hseg
        · obtain ⟨t, ht, h⟩ := ih seg hseg
          exact ⟨t, List.mem_cons_of_mem _ ht, h⟩
    · exact hs

theorem pathText_of_plain {bs : List UInt8} (h : bs.all isPlain = true) : pathText bs = bs := by
  simp only [List.all_eq_true, isPlain, Bool.and_eq_true] at h
  rw [pathText, List.filter_eq_self.mpr fun b hb => (h b hb).1.1,
    List.takeWhile_eq_self_iff.mpr fun b hb => (h b hb).1.2]

theorem rawSegments_join {segs : List (List UInt8)} (h : ∀ seg ∈ segs, seg.all isPlain = true) :
    rawSegments (join segs) = segs := by
  induction segs with
  | nil => rfl
  | cons s segs ih =>
    rw [List.forall_mem_cons] at h
    have hs := List.all_eq_true.mp h.1
    simp only [isPlain, Bool.and_eq_true, Bool.not_eq_true'] at hs
    have hpath : s.all (!endsPath ·) = true :=
      List.all_eq_true.mpr fun b hb => by rw [(hs b hb).1.2, Bool.not_false]
    rw [join_cons, rawSegments_cons_slash, pathText_append, if_pos hpath, pathText_of_plain h.1]
    cases segs with
    | nil =>
      rw [join_nil, show pathText [] = [] from rfl, List.append_nil]
      exact List.splitOnP_eq_singleton fun b hb => (hs b hb).2
    | cons s' segs =>
      have ih := ih h.2
      rw [join_cons, rawSegments_cons_slash] at ih
      rw [join_cons, pathText_cons_slash, List.splitOnP_append_cons _ _ (by rfl), ih,
        List.splitOnP_eq_singleton fun b hb => (hs b hb).2]
      rfl

theorem mem_afterDot {path : List (List UInt8)} {seg : List UInt8} {last : Bool} :
    ∀ t ∈ afterDot path seg last, t ∈ path ∨ t = [] := by
  intro t ht
  rcases List.mem_append.mp ht with ht | ht
  · split_ifs at ht
    · exact .inl ((List.dropLast_sublist _).subset ht)
    · exact .inl ht
  · split_ifs at ht
    · exact .inr (List.mem_singleton.mp ht)
    · exact absurd ht List.not_mem_nil

theorem mem_resolveDots {path segs : List (List UInt8)} :
    ∀ seg ∈ resolveDots path segs, seg ∈ path ∨ seg = [] ∨ seg ∈ segs ∧ isDot seg = false := by
  induction segs generalizing path with
  | nil => exact fun _ h => .inl h
  | cons s segs ih =>
    intro seg hseg
    rw [resolveDots] at hseg
    rcases ih seg hseg with h | h | h
    · split_ifs at h with hdot
      · exact (mem_afterDot seg h).imp_right .inl
      · rcases List.mem_append.mp h with h | h
        · exact .inl h
        · obtain rfl := List.mem_singleton.mp h
          exact .inr (.inr ⟨List.mem_cons_self, by simpa using hdot⟩)
    · exact .inr (.inl h)
    · exact .inr (.inr ⟨List.mem_cons_of_mem _ h.1, h.2⟩)

theorem resolveDots_eq_append {path segs : List (List UInt8)}
    (h : ∀ seg ∈ segs, isDot seg = false) : resolveDots path segs = path ++ segs := by
  induction segs generalizing path with
  | nil => simp [resolveDots]
  | cons s segs ih =>
    rw [List.forall_mem_cons] at h
    rw [resolveDots, if_neg (by simp [h.1]), ih h.2, List.append_assoc, List.singleton_append]

/-- A segment of the path of joined segments is what is left of one of them. -/
theorem mem_pathSegments_join {segs : List (List UInt8)} {seg : List UInt8}
    (h : seg ∈ pathSegments (join segs)) (hne : seg ≠ []) :
    seg.all isPlain = true ∧ isDot seg = false ∧ ∃ s ∈ segs, seg.Sublist s := by
  rcases mem_resolveDots seg h with h | h | ⟨h, hdot⟩
  · exact absurd h List.not_mem_nil
  · exact absurd h hne
  · obtain ⟨s, hs, hsub, hslash⟩ := mem_rawSegments_join seg h
    refine ⟨List.all_eq_true.mpr fun b hb => ?_, hdot, s, hs, hsub.trans (pathText_sublist s)⟩
    have hb' := hsub.subset hb
    have hend := List.mem_takeWhile_imp hb'
    have hdropped := (List.mem_filter.mp ((List.takeWhile_sublist _).subset hb')).2
    rw [isPlain, hend, hdropped, hslash b hb]
    rfl

/-- Segments without delimiters that are not dots stay what they are. -/
theorem pathSegments_join {segs : List (List UInt8)}
    (h : ∀ seg ∈ segs, seg.all isPlain = true ∧ isDot seg = false) :
    pathSegments (join segs) = segs := by
  rw [pathSegments, rawSegments_join fun seg hseg => (h seg hseg).1,
    resolveDots_eq_append fun seg hseg => (h seg hseg).2, List.nil_append]

/-! ## Escapes -/

def hexDigit (n : Nat) : UInt8 := UInt8.ofNat (if n < 10 then 48 + n else 55 + n)

/-- The value of a hexadecimal digit of either case, of the code of a character. -/
def hexValue (c : Nat) : Option Nat :=
  if 48 ≤ c ∧ c < 58 then some (c - 48)
  else if 65 ≤ c ∧ c < 71 then some (c - 55)
  else if 97 ≤ c ∧ c < 103 then some (c - 87)
  else none

/-- A byte that is not sent as it is: controls, what is not ASCII, and a space,
a quotation mark, a number sign, angle brackets, a question mark, a circumflex, a
grave accent and braces. -/
def isEscaped (b : UInt8) : Bool :=
  b.toNat ≤ 32 || 127 ≤ b.toNat || [34, 35, 60, 62, 63, 94, 96, 123, 125].contains b.toNat

def percentEncodeByte (b : UInt8) : List UInt8 :=
  if isEscaped b then [37, hexDigit (b.toNat / 16), hexDigit (b.toNat % 16)] else [b]

def percentEncode (bs : List UInt8) : List UInt8 := bs.flatMap percentEncodeByte

/-- The byte that three bytes escape. -/
def unescape (b h l : UInt8) : Option UInt8 :=
  if b = 37 then do
    let h ← hexValue h.toNat
    let l ← hexValue l.toNat
    return UInt8.ofNat (16 * h + l)
  else none

def percentDecode : List UInt8 → List UInt8
  | b :: h :: l :: bs =>
    match unescape b h l with
    | some d => d :: percentDecode bs
    | none => b :: percentDecode (h :: l :: bs)
  | bs => bs

theorem hexValue_hexDigit : ∀ n < 16, hexValue (hexDigit n).toNat = some n := by decide

/-- A hexadecimal digit is sent as it is. -/
theorem isEscaped_of_hexValue {b : UInt8} {n : Nat} (h : hexValue b.toNat = some n) :
    isEscaped b = false := by
  rw [hexValue] at h
  simp only [isEscaped, List.contains_eq_mem, Bool.or_eq_false_iff, decide_eq_false_iff_not,
    List.mem_cons, List.not_mem_nil, or_false, not_or]
  split_ifs at h <;> omega

/-- The digits of an escape are sent as they are. -/
theorem unescape_eq_some {b h l d : UInt8} (hd : unescape b h l = some d) :
    isEscaped b = false ∧ (isEscaped h = false ∧ h ≠ 37) ∧ isEscaped l = false ∧ l ≠ 37 := by
  have hdigit : ∀ {c : UInt8} {n : Nat}, hexValue c.toNat = some n → isEscaped c = false ∧ c ≠ 37 :=
    fun hc => ⟨isEscaped_of_hexValue hc, by rintro rfl; cases hc⟩
  rw [unescape] at hd
  split_ifs at hd with hb
  obtain ⟨m, hm, hd⟩ := Option.bind_eq_some_iff.mp hd
  obtain ⟨n, hn, -⟩ := Option.bind_eq_some_iff.mp hd
  exact ⟨hb ▸ by decide, hdigit hm, hdigit hn⟩

theorem unescape_hexDigit (b : UInt8) :
    unescape 37 (hexDigit (b.toNat / 16)) (hexDigit (b.toNat % 16)) = some b := by
  have hb := b.toNat_lt
  rw [unescape, if_pos rfl, hexValue_hexDigit _ (by omega), hexValue_hexDigit _ (by omega)]
  change some (UInt8.ofNat (16 * (b.toNat / 16) + b.toNat % 16)) = some b
  rw [Nat.div_add_mod, UInt8.ofNat_toNat]

theorem percentDecode_of_unescape {b h l d : UInt8} (hd : unescape b h l = some d)
    (bs : List UInt8) : percentDecode (b :: h :: l :: bs) = d :: percentDecode bs := by
  rw [percentDecode, hd]

/-- A byte that begins no escape. -/
theorem percentDecode_cons {b : UInt8} {bs : List UInt8}
    (h : ∀ h l bs', bs = h :: l :: bs' → unescape b h l = none) :
    percentDecode (b :: bs) = b :: percentDecode bs := by
  rcases bs with _ | ⟨h', _ | ⟨l', bs⟩⟩
  · rfl
  · rfl
  · rw [percentDecode, h h' l' bs rfl]

theorem percentEncode_cons (b : UInt8) (bs : List UInt8) :
    percentEncode (b :: bs) = percentEncodeByte b ++ percentEncode bs := rfl

theorem percentEncode_cons_of_not_escaped {b : UInt8} (h : isEscaped b = false) (bs : List UInt8) :
    percentEncode (b :: bs) = b :: percentEncode bs := by
  rw [percentEncode_cons, percentEncodeByte, h]
  rfl

theorem percentEncode_ne_nil {bs : List UInt8} (h : bs ≠ []) : percentEncode bs ≠ [] := by
  obtain ⟨b, bs, rfl⟩ := List.exists_cons_of_ne_nil h
  rw [percentEncode_cons, percentEncodeByte]
  split_ifs <;> exact List.cons_ne_nil _ _

/-- The first byte of what is sent is the first of the text, or begins an escape. -/
theorem percentEncode_eq_cons {bs bs' : List UInt8} {c : UInt8}
    (h : percentEncode bs = c :: bs') (hc : c ≠ 37) :
    ∃ bs'', bs = c :: bs'' ∧ percentEncode bs'' = bs' := by
  cases bs with
  | nil => cases h
  | cons b bs =>
    cases hb : isEscaped b with
    | true =>
      rw [percentEncode_cons, percentEncodeByte, hb] at h
      exact absurd (List.cons.inj h).1.symm hc
    | false =>
      rw [percentEncode_cons_of_not_escaped hb] at h
      obtain ⟨rfl, rfl⟩ := List.cons.inj h
      exact ⟨bs, rfl, rfl⟩

theorem percentDecode_percentEncode_cons {b : UInt8} {bs : List UInt8}
    (h : ∀ h l bs', bs = h :: l :: bs' → unescape b h l = none) :
    percentDecode (percentEncode (b :: bs)) = b :: percentDecode (percentEncode bs) := by
  cases hb : isEscaped b with
  | true =>
    rw [percentEncode_cons, percentEncodeByte, hb]
    exact percentDecode_of_unescape (unescape_hexDigit b) _
  | false =>
    rw [percentEncode_cons_of_not_escaped hb]
    refine percentDecode_cons fun h' l' bs' hbs => Option.eq_none_iff_forall_ne_some.mpr ?_
    intro d hd
    obtain ⟨-, hh, hl⟩ := unescape_eq_some hd
    obtain ⟨bs₁, rfl, hbs₁⟩ := percentEncode_eq_cons hbs hh.2
    obtain ⟨bs₂, rfl, -⟩ := percentEncode_eq_cons hbs₁ hl.2
    cases (h h' l' bs₂ rfl).symm.trans hd

/-- Decoding what was sent undoes the escapes of the text. -/
theorem percentDecode_percentEncode (bs : List UInt8) :
    percentDecode (percentEncode bs) = percentDecode bs := by
  induction bs using percentDecode.induct with
  | case1 b h l bs d hd ih =>
    obtain ⟨hb, hh, hl⟩ := unescape_eq_some hd
    rw [percentEncode_cons_of_not_escaped hb, percentEncode_cons_of_not_escaped hh.1,
      percentEncode_cons_of_not_escaped hl.1, percentDecode_of_unescape hd,
      percentDecode_of_unescape hd, ih]
  | case2 b h l bs hd ih =>
    rw [percentDecode_percentEncode_cons (by rintro _ _ _ ⟨⟩; exact hd), ih, percentDecode, hd]
  | case3 bs hbs =>
    -- nothing is escaped by less than three bytes
    rcases bs with _ | ⟨b, _ | ⟨h, _ | ⟨l, bs⟩⟩⟩
    · rfl
    · exact percentDecode_percentEncode_cons (by simp)
    · rw [percentDecode_percentEncode_cons (by simp), percentDecode_percentEncode_cons (by simp)]
      rfl
    · exact absurd rfl (hbs b h l bs)

theorem length_percentDecode_le (bs : List UInt8) : (percentDecode bs).length ≤ bs.length := by
  induction bs using percentDecode.induct with
  | case1 b h l bs d hd ih =>
    rw [percentDecode_of_unescape hd]
    simp only [List.length_cons]
    omega
  | case2 b h l bs hd ih =>
    rw [percentDecode, hd]
    exact Nat.succ_le_succ ih
  | case3 bs hbs => rw [percentDecode.eq_2 bs hbs]

/-- Without a percent sign, nothing is escaped. -/
theorem percentDecode_eq_self {bs : List UInt8} (h : 37 ∉ bs) : percentDecode bs = bs := by
  induction bs with
  | nil => rfl
  | cons b bs ih =>
    rw [List.mem_cons, not_or] at h
    rw [percentDecode_cons fun h' l bs' _ => if_neg (Ne.symm h.1), ih h.2]

/-! ## A text as a segment -/

/-- A text that is read as one segment, and as itself. -/
def isSegment (bs : List UInt8) : Bool :=
  !bs.isEmpty && bs.all isPlain && !isDot bs && percentDecode bs == bs

theorem isSegment_iff {bs : List UInt8} :
    isSegment bs = true ↔ bs ≠ [] ∧ bs.all isPlain = true ∧ isDot bs = false ∧
      percentDecode bs = bs := by
  simp only [isSegment, Bool.and_eq_true, Bool.not_eq_true', List.isEmpty_eq_false_iff,
    beq_iff_eq, and_assoc]

theorem isDot_eq_false {seg : List UInt8} (hdot : 46 ∉ seg) (hpercent : 37 ∉ seg) :
    isDot seg = false := by
  have hdots : ∀ d ∈ dots ++ dots.flatMap fun d => dots.map (d ++ ·), 46 ∈ d ∨ 37 ∈ d := by decide
  by_contra h
  rw [Bool.not_eq_false, isDot, Bool.or_eq_true, isSingleDot, isDoubleDot, List.contains_iff_mem,
    List.contains_iff_mem, ← List.mem_append] at h
  exact (hdots seg h).elim hdot hpercent

/-- A text without delimiters, dots and percent signs is one. -/
theorem isSegment_of_plain {bs : List UInt8} (hne : bs ≠ [])
    (h : ∀ b ∈ bs, isPlain b = true ∧ b ≠ 46 ∧ b ≠ 37) : isSegment bs = true :=
  isSegment_iff.mpr ⟨hne, List.all_eq_true.mpr fun b hb => (h b hb).1,
    isDot_eq_false (fun hb => (h _ hb).2.1 rfl) fun hb => (h _ hb).2.2 rfl,
    percentDecode_eq_self fun hb => (h _ hb).2.2 rfl⟩

/-- Where texts are joined, a segment that is read as `bs` is `bs` itself, unless it
comes from a text with a percent sign. -/
theorem isSegment_of_mem_join {bs seg : List UInt8} {segs : List (List UInt8)}
    (hsegs : ∀ s ∈ segs, s = bs ∨ 37 ∉ s) (hseg : seg ∈ pathSegments (join segs)) (hne : seg ≠ [])
    (hread : percentDecode seg = bs) : isSegment bs = true := by
  obtain ⟨hplain, hdot, s, hs, hsub⟩ := mem_pathSegments_join hseg hne
  have heq : seg = bs := by
    rcases hsegs s hs with rfl | h37
    · -- decoding makes nothing longer
      refine hsub.eq_of_length (Nat.le_antisymm hsub.length_le ?_)
      rw [← hread]
      exact length_percentDecode_le seg
    · rw [← hread, percentDecode_eq_self fun h => h37 (hsub.subset h)]
  exact isSegment_iff.mpr ⟨heq ▸ hne, heq ▸ hplain, heq ▸ hdot, heq ▸ hread⟩

theorem pathSegments_join_of_isSegment {segs : List (List UInt8)}
    (h : ∀ seg ∈ segs, isSegment seg = true) : pathSegments (join segs) = segs :=
  pathSegments_join fun seg hseg =>
    ⟨(isSegment_iff.mp (h seg hseg)).2.1, (isSegment_iff.mp (h seg hseg)).2.2.1⟩

end MikanJudge.Lib.Url
