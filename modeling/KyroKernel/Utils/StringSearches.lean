import KyroKernel.Utils.StringOrder

/-!
# Searching in strings

`strstr`, `strchr` and `strrchr` of `kernel/utils/string.c`. The characters are signed, and `strchr`
and `strrchr` compare them with an int that they do not convert to a `char`: a byte of 128 or more
is found as a negative number only.
-/

namespace KyroKernel

open Foundations

namespace InMemory

/-- `*h && *n && *h == *n`. -/
def sameChars (m : PartialMem) : Word × Word → Option Bool
  | (h, n) => do
    if (← m h) = 0 then return false
    if (← m n) = 0 then return false
    return (← m h) = (← m n)

/-- The loop over `haystack`. -/
def strstrLoop (m : PartialMem) (needle : Word) : Nat → Word → Option (Option Word)
  | 0, _ => none
  | fuel + 1, haystack => do
    if (← m haystack) = 0 then return none
    let (_, n) ← whileLoads (sameChars m) nextChars (fuel + 1) (haystack, needle)
    if (← m n) = 0 then return some haystack
    strstrLoop m needle fuel (haystack + 1)

/-- `strstr`. -/
def strstr (m : PartialMem) (fuel : Nat) (haystack needle : Word) : Option (Option Word) := do
  if (← m needle) = 0 then return some haystack
  strstrLoop m needle fuel haystack

/-- `strchr`; `*s == c` compares ints. -/
def strchr (m : PartialMem) : Nat → Word → Word → Option (Option Word)
  | 0, _, _ => none
  | fuel + 1, s, c => do
    let ch ← m s
    if ch = 0 then return if c = 0 then some s else none
    if ch.signExtend 32 = c then return some s
    strchr m fuel (s + 1) c

/-- The loop of `strrchr`: `s` and `last` after it. -/
def strrchrLoop (m : PartialMem) (c : Word) : Nat → Word → Option Word →
    Option (Word × Option Word)
  | 0, _, _ => none
  | fuel + 1, s, last => do
    let ch ← m s
    if ch = 0 then return (s, last)
    strrchrLoop m c fuel (s + 1) (if ch.signExtend 32 = c then some s else last)

/-- `strrchr`. -/
def strrchr (m : PartialMem) (fuel : Nat) (s c : Word) : Option (Option Word) := do
  let (s, last) ← strrchrLoop m c fuel s none
  return if c = 0 then some s else last

end InMemory

/-- The offsets at which the needle occurs. -/
def occurrences (hs ns : List Byte) : Set Nat := {i | ns <+: hs.drop i}

variable {m : PartialMem} {p h n c : Word} {hs ns s rest : List Byte} {fuel k : Nat}

/-! ## `strstr` -/

theorem sameChars_eq {a b : Byte} (ha : m h = some a) (hb : m n = some b) :
    InMemory.sameChars m (h, n) = some (decide (a ≠ 0 ∧ b ≠ 0 ∧ a = b)) := by
  have hcond : InMemory.sameChars m (h, n) =
      if a = 0 then some false else if b = 0 then some false else some (decide (a = b)) := by
    rw [InMemory.sameChars, ha, hb]
    rfl
  rw [hcond]
  split
  · next ha0 => rw [decide_eq_false fun hne => hne.1 ha0]
  · next ha0 =>
    split
    · next hb0 => rw [decide_eq_false fun hne => hne.2.1 hb0]
    · next hb0 =>
      refine congrArg some (decide_eq_decide.mpr ?_)
      exact ⟨fun hab => ⟨ha0, hb0, hab⟩, fun hne => hne.2.2⟩

/-- The inner loop comes to the end of the needle when the haystack starts with it. -/
theorem matchLoop_eq (hh : m.HasString h hs) (hn : m.HasString n ns) (hhnul : (0 : Byte) ∉ hs)
    (hnnul : (0 : Byte) ∉ ns) :
    ∃ h' n' c, (∀ fuel > hs.length,
        whileLoads (InMemory.sameChars m) InMemory.nextChars fuel (h, n) = some (h', n')) ∧
      m n' = some c ∧ (c = 0 ↔ ns <+: hs) := by
  induction hs generalizing h n ns with
  | nil =>
    -- The haystack has ended.
    have hstop : InMemory.sameChars m (h, n) = some false := by
      rw [sameChars_eq hh hn.load, decide_eq_false fun hne => hne.1 rfl]
    refine ⟨h, n, ns.headD 0, forall_fuel fun fuel _ => whileLoads_stop hstop fuel, hn.load, ?_⟩
    cases ns with
    | nil => simp
    | cons d ns => simpa using (List.ne_and_not_mem_of_not_mem_cons hnnul).1.symm
  | cons a hs ih =>
    obtain ⟨ha, hhnul'⟩ := List.ne_and_not_mem_of_not_mem_cons hhnul
    cases ns with
    | nil =>
      have hstop : InMemory.sameChars m (h, n) = some false := by
        rw [sameChars_eq hh.1 hn, decide_eq_false fun hne => hne.2.1 rfl]
      exact ⟨h, n, 0, forall_fuel fun fuel _ => whileLoads_stop hstop fuel, hn, by simp⟩
    | cons d ns =>
      obtain ⟨hd, hnnul'⟩ := List.ne_and_not_mem_of_not_mem_cons hnnul
      by_cases had : a = d
      · have hnext : InMemory.sameChars m (h, n) = some true := by
          rw [sameChars_eq hh.1 hn.1, decide_eq_true ⟨ha.symm, hd.symm, had⟩]
        obtain ⟨h', n', c, hloop, hc, hiff⟩ := ih hh.2 hn.2 hhnul' hnnul'
        refine ⟨h', n', c, forall_fuel fun fuel hfuel => ?_, hc, ?_⟩
        · rw [whileLoads_next hnext]
          exact hloop fuel hfuel
        · rw [hiff, List.cons_prefix_cons]
          simp [had]
      · have hstop : InMemory.sameChars m (h, n) = some false := by
          rw [sameChars_eq hh.1 hn.1, decide_eq_false fun hne => had hne.2.2]
        refine ⟨h, n, d, forall_fuel fun fuel _ => whileLoads_stop hstop fuel, hn.1, ?_⟩
        rw [List.cons_prefix_cons]
        exact iff_of_false hd.symm fun hpre => had hpre.1.symm

/-! ### Offsets of a string -/

theorem lt_of_drop_cons {ch : Byte} (hrest : s.drop k = ch :: rest) : k < s.length := by
  rw [← List.drop_eq_nil_iff.not.trans Nat.not_le, hrest]
  exact List.cons_ne_nil ch rest

theorem drop_succ_of_cons {ch : Byte} (hrest : s.drop k = ch :: rest) : s.drop (k + 1) = rest := by
  rw [← List.drop_drop, hrest, List.drop_one, List.tail_cons]

/-- Where nothing is left of the haystack, a needle with characters does not occur. -/
theorem occurrences_eq_empty (hns : ns ≠ []) (hbefore : ∀ i ∈ occurrences hs ns, k ≤ i)
    (hend : hs.drop k = []) : occurrences hs ns = ∅ := by
  refine Set.eq_empty_of_forall_notMem fun i hi => hns ?_
  have hdrop : hs.drop i = [] := by
    rw [List.drop_eq_nil_iff] at hend ⊢
    exact Nat.le_trans hend (hbefore i hi)
  have hpre : ns <+: hs.drop i := hi
  rwa [hdrop, List.prefix_nil] at hpre

/-- The outer loop at an offset before which the needle does not occur. -/
theorem strstrLoop_eq (hh : m.HasString (p + BitVec.ofNat 32 k) rest) (hrest : hs.drop k = rest)
    (hn : m.HasString n ns) (hhnul : (0 : Byte) ∉ rest) (hnnul : (0 : Byte) ∉ ns) (hns : ns ≠ [])
    (hbefore : ∀ i ∈ occurrences hs ns, k ≤ i) :
    ∃ r, (∀ fuel > rest.length,
        InMemory.strstrLoop m n fuel (p + BitVec.ofNat 32 k) = some r) ∧
      PointsToFirst p (occurrences hs ns) r := by
  induction rest generalizing k with
  | nil =>
    refine ⟨none, forall_fuel fun fuel _ => ?_, ?_⟩
    · rw [InMemory.strstrLoop, show m (p + BitVec.ofNat 32 k) = some 0 from hh]
      rfl
    · rw [occurrences_eq_empty hns hbefore hrest]
      exact pointsToFirst_empty p
  | cons a rest ih =>
    obtain ⟨ha, hhnul'⟩ := List.ne_and_not_mem_of_not_mem_cons hhnul
    obtain ⟨h', n', c, hloop, hc, hiff⟩ := matchLoop_eq hh hn hhnul hnnul
    -- One round of the loop.
    have hround : ∀ fuel ≥ (a :: rest).length,
        InMemory.strstrLoop m n (fuel + 1) (p + BitVec.ofNat 32 k) =
          if c = 0 then some (some (p + BitVec.ofNat 32 k))
          else InMemory.strstrLoop m n fuel (p + BitVec.ofNat 32 (k + 1)) := by
      intro fuel hfuel
      rw [InMemory.strstrLoop, hh.1, hloop (fuel + 1) (Nat.lt_succ_of_le hfuel), Mem.addr_add_one]
      simp only [Option.bind_eq_bind, Option.bind_some, if_neg ha.symm, hc]
      rfl
    by_cases hpre : ns <+: a :: rest
    · refine ⟨some (p + BitVec.ofNat 32 k), forall_fuel fun fuel hfuel => ?_, ?_⟩
      · rw [hround fuel hfuel, if_pos (hiff.mpr hpre)]
      · have hk : ns <+: hs.drop k := hrest ▸ hpre
        exact pointsToFirst_of_isLeast ⟨hk, hbefore⟩
    · have hk : k ∉ occurrences hs ns := fun hk => hpre (hrest ▸ hk)
      have hbefore' := succ_le_of_notMem hbefore hk
      obtain ⟨r, hr, hfirst⟩ := ih hh.at_succ (drop_succ_of_cons hrest) hhnul' hbefore'
      refine ⟨r, forall_fuel fun fuel hfuel => ?_, hfirst⟩
      rw [hround fuel hfuel, if_neg (mt hiff.mp hpre)]
      exact hr fuel hfuel

/-- `strstr` returns a pointer to the first place where the needle occurs, NULL if there is none,
and loads no byte behind one of the NULs: there may be none in the memory. -/
theorem strstr_pointsToFirst (hs ns : CString) (hh : m.HasString h hs.toList)
    (hn : m.HasString n ns.toList) :
    ∃ r, (∀ fuel > hs.toList.length, InMemory.strstr m fuel h n = some r) ∧
      PointsToFirst h (occurrences hs.toList ns.toList) r := by
  by_cases hns : ns.toList = []
  · -- The empty needle.
    rw [hns] at hn ⊢
    refine ⟨some h, fun fuel _ => ?_, ?_⟩
    · rw [InMemory.strstr, show m n = some 0 from hn]
      rfl
    · have h0 : IsLeast (occurrences hs.toList []) 0 := ⟨List.nil_prefix, fun i _ => Nat.zero_le i⟩
      have hfirst := pointsToFirst_of_isLeast (p := h) h0
      rwa [Mem.addr_zero] at hfirst
  · have hload : ∃ c, m n = some c ∧ c ≠ 0 := by
      have hnul := ns.nul_free
      cases hlist : ns.toList with
      | nil => exact absurd hlist hns
      | cons c s =>
        rw [hlist] at hn hnul
        exact ⟨c, hn.1, (List.ne_and_not_mem_of_not_mem_cons hnul).1.symm⟩
    obtain ⟨c, hc, hne⟩ := hload
    obtain ⟨r, hr, hfirst⟩ := strstrLoop_eq hh.at_zero List.drop_zero hn hs.nul_free ns.nul_free hns
      fun i _ => Nat.zero_le i
    refine ⟨r, fun fuel hfuel => ?_, hfirst⟩
    have hloop := hr fuel hfuel
    rw [Mem.addr_zero] at hloop
    rw [InMemory.strstr, hc, ← hloop]
    exact if_neg hne

/-- The string `aab` at `0x1000`, and nothing else. -/
def aabMemory : PartialMem := fun a =>
  if a = 0x1000 then some (ascii 'a') else if a = 0x1001 then some (ascii 'a')
  else if a = 0x1002 then some (ascii 'b') else if a = 0x1003 then some 0 else none

/-- `strstr` for the rest of the haystack from its second character on. -/
theorem strstr_pointsToFirst_rest :
    ∃ r, (∀ fuel > (chars "aab").length,
        InMemory.strstr aabMemory fuel 0x1000 0x1001 = some r) ∧
      PointsToFirst 0x1000 (occurrences (chars "aab") (chars "ab")) r :=
  strstr_pointsToFirst ⟨chars "aab", by decide⟩ ⟨chars "ab", by decide⟩ ⟨rfl, rfl, rfl, rfl⟩
    ⟨rfl, rfl, rfl⟩

/-! ## `strchr` and `strrchr` -/

/-- The positions of the characters like `c` after its conversion to a `char`, the NUL included. -/
def positionsOf (s : List Byte) (c : Word) : Set Nat := {i | (s ++ [0])[i]? = some (c.setWidth 8)}

/-- The positions at which the comparison `*s == c` holds. -/
def comparedPositions (s : List Byte) (c : Word) : Set Nat :=
  {i | ∃ ch, (s ++ [0])[i]? = some ch ∧ ch.signExtend 32 = c}

/-- `strchr` and `strrchr` find the first and the last character like `c`. -/
structure FindsByte (m : PartialMem) (p : Word) (s : List Byte) (c : Word) : Prop where
  first : ∃ r, (∀ fuel > s.length, InMemory.strchr m fuel p c = some r) ∧
    PointsToFirst p (positionsOf s c) r
  last : ∃ r, (∀ fuel > s.length, InMemory.strrchr m fuel p c = some r) ∧
    PointsToLast p (positionsOf s c) r

/-- The character at an offset, the NUL at the last one. -/
theorem getElem?_nul_of_drop (hrest : s.drop k = rest) (hk : k ≤ s.length) :
    (s ++ [0])[k]? = some (rest.headD 0) := by
  cases rest with
  | nil =>
    have hend : k = s.length := Nat.le_antisymm hk (List.drop_eq_nil_iff.mp hrest)
    rw [hend, List.getElem?_append_right (Nat.le_refl _), Nat.sub_self]
    rfl
  | cons ch rest =>
    rw [List.getElem?_append_left (lt_of_drop_cons hrest), ← List.head?_drop, hrest]
    rfl

theorem mem_comparedPositions_iff (hrest : s.drop k = rest) (hk : k ≤ s.length) :
    k ∈ comparedPositions s c ↔ (rest.headD 0).signExtend 32 = c := by
  have hchar := getElem?_nul_of_drop hrest hk
  constructor
  · rintro ⟨ch, hch, heq⟩
    rw [hchar] at hch
    rwa [Option.some.inj hch]
  · intro heq
    exact ⟨_, hchar, heq⟩

theorem le_of_mem_comparedPositions {i : Nat} (hi : i ∈ comparedPositions s c) : i ≤ s.length := by
  obtain ⟨ch, hch, -⟩ := hi
  obtain ⟨hlt, -⟩ := List.getElem?_eq_some_iff.mp hch
  simpa [Nat.lt_succ_iff] using hlt

/-- `strchr` at an offset before which no character compares equal. -/
theorem strchr_eq (hs : m.HasString (p + BitVec.ofNat 32 k) rest) (hrest : s.drop k = rest)
    (hk : k ≤ s.length) (hnul : (0 : Byte) ∉ rest)
    (hbefore : ∀ i ∈ comparedPositions s c, k ≤ i) :
    ∃ r, (∀ fuel > rest.length, InMemory.strchr m fuel (p + BitVec.ofNat 32 k) c = some r) ∧
      PointsToFirst p (comparedPositions s c) r := by
  have hmem := mem_comparedPositions_iff (c := c) hrest hk
  induction rest generalizing k with
  | nil =>
    -- At the terminator.
    have hend := List.drop_eq_nil_iff.mp hrest
    refine ⟨if c = 0 then some (p + BitVec.ofNat 32 k) else none, forall_fuel fun fuel _ => ?_, ?_⟩
    · rw [InMemory.strchr, show m (p + BitVec.ofNat 32 k) = some 0 from hs]
      rfl
    · split
      · next hc => exact pointsToFirst_of_isLeast ⟨hmem.mpr hc.symm, hbefore⟩
      · next hc =>
        have hnone : comparedPositions s c = ∅ := by
          refine Set.eq_empty_of_forall_notMem fun i hi => hc ?_
          have hik : i = k :=
            Nat.le_antisymm (Nat.le_trans (le_of_mem_comparedPositions hi) hend) (hbefore i hi)
          exact (hmem.mp (hik ▸ hi)).symm
        rw [hnone]
        exact pointsToFirst_empty p
  | cons ch rest ih =>
    obtain ⟨hne, hnul'⟩ := List.ne_and_not_mem_of_not_mem_cons hnul
    have hround : ∀ fuel, InMemory.strchr m (fuel + 1) (p + BitVec.ofNat 32 k) c =
        if ch.signExtend 32 = c then some (some (p + BitVec.ofNat 32 k))
        else InMemory.strchr m fuel (p + BitVec.ofNat 32 (k + 1)) c := by
      intro fuel
      rw [InMemory.strchr, hs.1, Mem.addr_add_one]
      exact if_neg hne.symm
    by_cases heq : ch.signExtend 32 = c
    · refine ⟨some (p + BitVec.ofNat 32 k), forall_fuel fun fuel _ => ?_, ?_⟩
      · rw [hround, if_pos heq]
      · exact pointsToFirst_of_isLeast ⟨hmem.mpr heq, hbefore⟩
    · have hlt := lt_of_drop_cons hrest
      have hbefore' := succ_le_of_notMem hbefore (mt hmem.mp heq)
      have hrest' := drop_succ_of_cons hrest
      obtain ⟨r, hr, hfirst⟩ := ih hs.at_succ hrest' hlt hnul' hbefore'
        (mem_comparedPositions_iff hrest' hlt)
      refine ⟨r, forall_fuel fun fuel hfuel => ?_, hfirst⟩
      rw [hround, if_neg heq]
      exact hr fuel hfuel

/-- The loop of `strrchr` at an offset, with the last position before it. -/
theorem strrchrLoop_eq {last : Option Word} (hs : m.HasString (p + BitVec.ofNat 32 k) rest)
    (hrest : s.drop k = rest) (hk : k ≤ s.length) (hnul : (0 : Byte) ∉ rest)
    (hlast : PointsToLast p {i ∈ comparedPositions s c | i < k} last) :
    ∃ last', (∀ fuel > rest.length,
        InMemory.strrchrLoop m c fuel (p + BitVec.ofNat 32 k) last =
          some (p + BitVec.ofNat 32 s.length, last')) ∧
      PointsToLast p {i ∈ comparedPositions s c | i < s.length} last' := by
  induction rest generalizing k last with
  | nil =>
    obtain rfl : k = s.length := Nat.le_antisymm hk (List.drop_eq_nil_iff.mp hrest)
    refine ⟨last, forall_fuel fun fuel _ => ?_, hlast⟩
    rw [InMemory.strrchrLoop, show m (p + BitVec.ofNat 32 s.length) = some 0 from hs]
    rfl
  | cons ch rest ih =>
    obtain ⟨hne, hnul'⟩ := List.ne_and_not_mem_of_not_mem_cons hnul
    have hmem := mem_comparedPositions_iff (c := c) hrest hk
    have hlast' : PointsToLast p {i ∈ comparedPositions s c | i < k + 1}
        (if ch.signExtend 32 = c then some (p + BitVec.ofNat 32 k) else last) := by
      split
      · next heq =>
        refine pointsToLast_of_isGreatest ⟨⟨hmem.mpr heq, Nat.lt_succ_self k⟩, fun i hi => ?_⟩
        exact Nat.le_of_lt_succ hi.2
      · next heq =>
        -- The position is none, so there are those before it.
        have hsame : {i ∈ comparedPositions s c | i < k + 1} =
            {i ∈ comparedPositions s c | i < k} := by
          refine Set.ext fun i => and_congr_right fun hi => ?_
          have hik : i ≠ k := fun hik => heq (hmem.mp (hik ▸ hi))
          omega
        rw [hsame]
        exact hlast
    obtain ⟨last', hr, hlast''⟩ := ih hs.at_succ (drop_succ_of_cons hrest)
      (lt_of_drop_cons hrest) hnul' hlast'
    refine ⟨last', forall_fuel fun fuel hfuel => ?_, hlast''⟩
    rw [InMemory.strrchrLoop, hs.1, ← hr fuel hfuel, Mem.addr_add_one]
    exact if_neg hne.symm

/-- `strchr` returns a pointer to the first character that compares equal, -/
theorem strchr_compared (s : CString) (hs : m.HasString p s.toList) (c : Word) :
    ∃ r, (∀ fuel > s.toList.length, InMemory.strchr m fuel p c = some r) ∧
      PointsToFirst p (comparedPositions s.toList c) r := by
  have h := strchr_eq (c := c) hs.at_zero List.drop_zero (Nat.zero_le _) s.nul_free
    fun i _ => Nat.zero_le i
  rwa [Mem.addr_zero] at h

/-- and `strrchr` to the last one. -/
theorem strrchr_compared (s : CString) (hs : m.HasString p s.toList) (c : Word) :
    ∃ r, (∀ fuel > s.toList.length, InMemory.strrchr m fuel p c = some r) ∧
      PointsToLast p (comparedPositions s.toList c) r := by
  have hnone : PointsToLast p {i ∈ comparedPositions s.toList c | i < 0} none := by
    have hempty : {i ∈ comparedPositions s.toList c | i < 0} = ∅ :=
      Set.eq_empty_of_forall_notMem fun i hi => Nat.not_lt_zero i hi.2
    rw [hempty]
    exact pointsToLast_empty p
  obtain ⟨last, hloop, hlast⟩ :=
    strrchrLoop_eq hs.at_zero List.drop_zero (Nat.zero_le _) s.nul_free hnone
  rw [Mem.addr_zero] at hloop
  have hmem := mem_comparedPositions_iff (c := c) List.drop_length (Nat.le_refl s.toList.length)
  refine ⟨if c = 0 then some (p + BitVec.ofNat 32 s.toList.length) else last,
    fun fuel hfuel => ?_, ?_⟩
  · rw [InMemory.strrchr, hloop fuel hfuel]
    rfl
  · split
    · next hc =>
      exact pointsToLast_of_isGreatest
        ⟨hmem.mpr hc.symm, fun i hi => le_of_mem_comparedPositions hi⟩
    · next hc =>
      -- The terminator does not compare equal.
      have hall : {i ∈ comparedPositions s.toList c | i < s.toList.length} =
          comparedPositions s.toList c := by
        refine Set.ext fun i => and_iff_left_of_imp fun hi => ?_
        refine Nat.lt_of_le_of_ne (le_of_mem_comparedPositions hi) fun hend => hc ?_
        exact (hmem.mp (hend ▸ hi)).symm
      rwa [hall] at hlast

/-- The numbers of a signed `char`. -/
def InCharRange (c : Word) : Prop := -128 ≤ c.toInt ∧ c.toInt ≤ 127

instance (c : Word) : Decidable (InCharRange c) :=
  inferInstanceAs (Decidable (-128 ≤ c.toInt ∧ c.toInt ≤ 127))

theorem inCharRange_signExtend (ch : Byte) : InCharRange (ch.signExtend 32) := by
  revert ch
  decide

theorem setWidth_signExtend (ch : Byte) : (ch.signExtend 32).setWidth 8 = ch := by
  revert ch
  decide

/-- A number of a `char` is not changed by the conversion to one. -/
theorem signExtend_setWidth (hc : InCharRange c) : (c.setWidth 8).signExtend 32 = c := by
  apply BitVec.eq_of_toInt_eq
  obtain ⟨hlo, hhi⟩ := hc
  rw [BitVec.toInt_signExtend_of_le (by decide), BitVec.toInt_setWidth]
  rw [BitVec.toInt_eq_toNat_bmod, Int.bmod] at hlo hhi ⊢
  rw [Int.bmod]
  omega

/-- A character compares equal to a number of a `char` that is like it, and to no other. -/
theorem signExtend_eq_iff (ch : Byte) :
    ch.signExtend 32 = c ↔ InCharRange c ∧ ch = c.setWidth 8 := by
  constructor
  · rintro rfl
    exact ⟨inCharRange_signExtend ch, (setWidth_signExtend ch).symm⟩
  · rintro ⟨hc, rfl⟩
    exact signExtend_setWidth hc

theorem comparedPositions_of_inCharRange (hc : InCharRange c) (s : List Byte) :
    comparedPositions s c = positionsOf s c := by
  ext i
  constructor
  · rintro ⟨ch, hch, heq⟩
    rw [positionsOf, Set.mem_ofPred_eq, hch, ((signExtend_eq_iff ch).mp heq).2]
  · intro hi
    exact ⟨_, hi, signExtend_setWidth hc⟩

/-- Outside of the numbers of a `char` no character compares equal. -/
theorem comparedPositions_eq_empty (hc : ¬ InCharRange c) (s : List Byte) :
    comparedPositions s c = ∅ := by
  refine Set.eq_empty_of_forall_notMem fun i hi => hc ?_
  obtain ⟨ch, -, heq⟩ := hi
  exact ((signExtend_eq_iff ch).mp heq).1

theorem positionsOf_eq_empty_iff : positionsOf s c = ∅ ↔ (c.setWidth 8 : Byte) ∉ s ++ [0] := by
  rw [← Set.not_nonempty_iff_eq_empty, not_iff_not, List.mem_iff_getElem?]
  rfl

/-- `strchr` and `strrchr` find every byte when they are given it as a signed `char`; any other
number must be like no character, NUL included. -/
theorem findsByte_iff (s : CString) (hs : m.HasString p s.toList) (c : Word) :
    FindsByte m p s.toList c ↔ InCharRange c ∨ (c.setWidth 8 : Byte) ∉ s.toList ++ [0] := by
  obtain ⟨r, hr, hfirst⟩ := strchr_compared s hs c
  obtain ⟨r', hr', hlast⟩ := strrchr_compared s hs c
  constructor
  · intro h
    by_cases hc : InCharRange c
    · exact .inl hc
    · -- The search returns NULL.
      right
      obtain ⟨r₁, hr₁, hfirst₁⟩ := h.first
      have hsame : r = r₁ := Option.some.inj
        ((hr _ (Nat.lt_succ_self _)).symm.trans (hr₁ _ (Nat.lt_succ_self _)))
      rw [← positionsOf_eq_empty_iff, ← hfirst₁.null_iff, ← hsame, hfirst.null_iff]
      exact comparedPositions_eq_empty hc s.toList
  · intro hcase
    have hpositions : comparedPositions s.toList c = positionsOf s.toList c := by
      by_cases hc : InCharRange c
      · exact comparedPositions_of_inCharRange hc s.toList
      · rw [comparedPositions_eq_empty hc, positionsOf_eq_empty_iff.mpr (hcase.resolve_left hc)]
    rw [hpositions] at hfirst hlast
    exact ⟨⟨r, hr, hfirst⟩, ⟨r', hr', hlast⟩⟩

/-- The string of the one byte `0xC8` at `0x1000`, and nothing else. -/
def highMemory : PartialMem := fun a =>
  if a = 0x1000 then some 0xC8 else if a = 0x1001 then some 0 else none

theorem hasString_highMemory : highMemory.HasString 0x1000 [0xC8] := ⟨rfl, rfl⟩

/-- The byte as an unsigned number. -/
theorem findsByte_iff_high :
    FindsByte highMemory 0x1000 [0xC8] 200 ↔
      InCharRange 200 ∨ ((200 : Word).setWidth 8 : Byte) ∉ [0xC8] ++ [0] :=
  findsByte_iff ⟨[0xC8], by decide⟩ hasString_highMemory 200

/-- `strchr(s, (unsigned char)s[0])` is NULL. -/
theorem not_forall_findsByte :
    ¬ ∀ (m : PartialMem) (p c : Word) (s : CString), m.HasString p s.toList →
      FindsByte m p s.toList c := by
  intro hall
  obtain ⟨r, hr, hfirst⟩ := (hall highMemory 0x1000 200 ⟨[0xC8], by decide⟩ hasString_highMemory).first
  have hnull : r = none := Option.some.inj (hr 2 (by decide)).symm
  have hempty := hfirst.null_iff.mp hnull
  have hmem : (0 : Nat) ∈ positionsOf [0xC8] 200 := rfl
  rw [hempty] at hmem
  exact hmem

end KyroKernel
