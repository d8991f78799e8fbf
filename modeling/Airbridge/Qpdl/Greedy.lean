import Airbridge.Lib.FirstBest
import Airbridge.Qpdl.Encode11

/-!
# The encoder is the naive greedy parse

The match search of the encoder rejects a candidate on one byte, and leaves
the table as soon as a match is as long as it can be.  The naive definition
does neither: `Candidate` says what a match is, and `referenceMatch` tries
every length from the largest down, and every slot for it.  The two agree,
also on which slot wins (`longestMatch_firstBest`, `referenceMatch_eq`).

The reference parse walks the band position by position: a match, or a single
literal.  Runs of literals are cut into tokens behind it.  The encoder, which
keeps only the start of the run, writes the same payload.
-/

namespace Airbridge.Qpdl

/-! ## The naive match search -/

/-- The `n` bytes at `pos` repeat at the distance in slot `i`, and `n` is a
length a match may have there. -/
structure Candidate (band : Bytes) (pos : Nat) (table : Table) (n i : Nat) : Prop where
  three_le : 3 ≤ n
  le : n ≤ min 514 (band.length - pos)
  slot : i < 64
  dist_ne : table.dist i ≠ 0
  dist_le : table.dist i ≤ pos
  same : ∀ k < n, byteAt band (pos + k) = byteAt band (pos - table.dist i + k)

instance (band : Bytes) (pos : Nat) (table : Table) (n i : Nat) :
    Decidable (Candidate band pos table n i) :=
  decidable_of_iff (3 ≤ n ∧ n ≤ min 514 (band.length - pos) ∧ i < 64 ∧ table.dist i ≠ 0 ∧
      table.dist i ≤ pos ∧ ∀ k < n, byteAt band (pos + k) = byteAt band (pos - table.dist i + k))
    ⟨fun ⟨h1, h2, h3, h4, h5, h6⟩ => ⟨h1, h2, h3, h4, h5, h6⟩,
      fun h => ⟨h.three_le, h.le, h.slot, h.dist_ne, h.dist_le, h.same⟩⟩

/-- The longest match of at most `n` bytes, and its first slot. -/
def referenceMatchBelow (band : Bytes) (pos : Nat) (table : Table) : Nat → Option (Nat × Nat)
  | 0 => none
  | n + 1 =>
    match (List.range 64).find? fun i => Candidate band pos table (n + 1) i with
    | some i => some (n + 1, i)
    | none => referenceMatchBelow band pos table n

/-- The longest match at `pos` and its first slot. -/
def referenceMatch (band : Bytes) (pos : Nat) (table : Table) : Option (Nat × Nat) :=
  referenceMatchBelow band pos table 514

/-! ## The pruned search finds the first best candidate -/

/-- The comparison of `match_len` stops at its limit or at a byte that
differs. -/
theorem matchLenLoop_stops (band : Bytes) (p s room n : Nat) :
    matchLenLoop band p s room n = n + room ∨
      byteAt band (p + matchLenLoop band p s room n) ≠
        byteAt band (s + matchLenLoop band p s room n) := by
  induction room generalizing n with
  | zero => exact .inl rfl
  | succ room ih =>
    rw [matchLenLoop]
    split_ifs with heq
    · rcases ih (n + 1) with h | h
      · left
        omega
      · exact .inr h
    · exact .inr heq

/-- `match_len` counts the bytes that agree. -/
theorem le_matchLen_iff (band : Bytes) (pos d max n : Nat) :
    n ≤ matchLen band pos d max ↔
      n ≤ max ∧ ∀ k < n, byteAt band (pos + k) = byteAt band (pos - d + k) := by
  constructor
  · intro hle
    refine ⟨hle.trans (matchLen_le band pos d max), ?_⟩
    intro k hk
    exact matchLen_eq_bytes band pos d max k (hk.trans_le hle)
  · rintro ⟨hmax, hsame⟩
    by_contra hlt
    rw [not_le] at hlt
    rcases matchLenLoop_stops band pos (pos - d) max 0 with h | h
    · rw [matchLen] at hlt
      omega
    · exact h (hsame _ hlt)

/-- The length of the match of a slot, and 0 when it gives none. -/
def slotScore (band : Bytes) (pos max : Nat) (d : Nat) : Nat :=
  if d = 0 ∨ d > pos ∨ matchLen band pos d max < 3 then 0 else matchLen band pos d max

theorem candidate_iff {band : Bytes} {pos : Nat} {table : Table} {n i : Nat} (hi : i < 64) :
    Candidate band pos table n i ↔
      3 ≤ n ∧ n ≤ slotScore band pos (min 514 (band.length - pos)) (table.dist i) := by
  have hlen := le_matchLen_iff band pos (table.dist i) (min 514 (band.length - pos)) n
  constructor
  · intro h
    have hle := hlen.mpr ⟨h.le, h.same⟩
    have hd := h.dist_ne
    have hpos := h.dist_le
    have hthree := h.three_le
    rw [slotScore, if_neg (by omega)]
    exact ⟨hthree, hle⟩
  · rintro ⟨hthree, hle⟩
    rw [slotScore] at hle
    split_ifs at hle with h
    · omega
    · obtain ⟨hmax, hsame⟩ := hlen.mp hle
      exact ⟨hthree, hmax, hi, by omega, by omega, hsame⟩

/-- The rejection test only rejects what is no better. -/
theorem slotScore_le_of_rejects {band : Bytes} {pos max d best : Nat}
    (h : rejects band pos (pos - d) best = true) : slotScore band pos max d ≤ best := by
  -- a match longer than `n` agrees at byte `n`
  have hagree (n : Nat) (hn : n < matchLen band pos d max) :
      byteAt band (pos + n) = byteAt band (pos - d + n) :=
    matchLen_eq_bytes band pos d max n hn
  rw [slotScore]
  split_ifs with hnone
  · exact Nat.zero_le _
  by_contra hlt
  rw [not_le] at hlt
  unfold rejects at h
  split_ifs at h with hbest
  · rw [hagree best hlt] at h
    simp at h
  · have h0 := hagree 0 (by omega)
    have h1 := hagree 1 (by omega)
    have h2 := hagree 2 (by omega)
    rw [Nat.add_zero, Nat.add_zero] at h0
    rw [h0, h1, h2] at h
    simp at h

/-- A first candidate that is not rejected gives at least three bytes. -/
theorem three_le_matchLen {band : Bytes} {pos max d : Nat} (hmax : 3 ≤ max)
    (h : rejects band pos (pos - d) 0 = false) : 3 ≤ matchLen band pos d max := by
  rw [le_matchLen_iff]
  refine ⟨hmax, ?_⟩
  intro k hk
  simp only [rejects, gt_iff_lt, Nat.lt_irrefl, if_false, Bool.or_eq_false_iff, bne_eq_false_iff_eq] at h
  obtain ⟨⟨h0, h1⟩, h2⟩ := h
  obtain rfl | rfl | rfl : k = 0 ∨ k = 1 ∨ k = 2 := by omega
  · exact h0.symm
  · exact h1.symm
  · exact h2.symm

theorem slotScore_le (band : Bytes) (pos max d : Nat) : slotScore band pos max d ≤ max := by
  rw [slotScore]
  split_ifs
  · exact Nat.zero_le _
  · exact matchLen_le band pos d max

/-- The loop over the table keeps the first best slot. -/
theorem longestMatchLoop_firstBest (band : Bytes) (pos max : Nat) (hmax : 3 ≤ max) (table : Table)
    (ts : List UInt16) (i best index : Nat) (hts : table.entries.drop i = ts) (hi : i ≤ 64)
    (h : FirstBest (fun j => slotScore band pos max (table.dist j)) i best index)
    (hbest : best = 0 ∨ 3 ≤ best) :
    let r := longestMatchLoop band pos max ts i best index
    FirstBest (fun j => slotScore band pos max (table.dist j)) 64 r.1 r.2 ∧
      (r.1 = 0 ∨ 3 ≤ r.1) := by
  induction ts generalizing i best index with
  | nil =>
    have hge := List.drop_eq_nil_iff.mp hts
    rw [table.length_eq] at hge
    obtain rfl : i = 64 := le_antisymm hi hge
    exact ⟨h, hbest⟩
  | cons t ts ih =>
    obtain ⟨hlt, ht, hrest⟩ := drop_eq_cons hts
    rw [table.length_eq] at hlt
    have hdist : t.toNat = table.dist i := by rw [Table.dist, ht]
    rw [longestMatchLoop]
    dsimp only
    rw [hdist]
    split_ifs with hskip hrej hbetter hfull
    · refine ih (i + 1) best index hrest hlt (h.skip ?_) hbest
      rw [slotScore, if_pos (by omega)]
      exact Nat.zero_le best
    · exact ih (i + 1) best index hrest hlt (h.skip (slotScore_le_of_rejects hrej)) hbest
    all_goals
      have hthree : best = 0 → 3 ≤ matchLen band pos (table.dist i) max := by
        rintro rfl
        exact three_le_matchLen hmax (Bool.not_eq_true _ ▸ hrej)
      -- a longer match takes the lead with its whole length
      have htake : matchLen band pos (table.dist i) max > best →
          FirstBest (fun j => slotScore band pos max (table.dist j)) (i + 1)
            (matchLen band pos (table.dist i) max) i := by
        intro hbetter
        have hscore : slotScore band pos max (table.dist i) =
            matchLen band pos (table.dist i) max := by
          rw [slotScore, if_neg (by omega)]
        have hlead := h.take (hscore ▸ hbetter)
        rwa [hscore] at hlead
    · refine ⟨(htake hbetter).stop hlt ?_, by omega⟩
      intro j _
      rw [hfull]
      exact slotScore_le band pos max (table.dist j)
    · exact ih (i + 1) _ i hrest hlt (htake hbetter) (by omega)
    · refine ih (i + 1) best index hrest hlt (h.skip ?_) hbest
      rw [slotScore]
      split_ifs
      · exact Nat.zero_le best
      · exact not_lt.mp hbetter

/-- The search returns the best score of the table and its first slot. -/
theorem longestMatch_firstBest (band : Bytes) (pos : Nat) (table : Table) :
    FirstBest (fun j => slotScore band pos (min 514 (band.length - pos)) (table.dist j)) 64
      (longestMatch band pos table).1 (longestMatch band pos table).2 := by
  have hmin : (if band.length - pos > 514 then 514 else band.length - pos) =
      min 514 (band.length - pos) := by
    split_ifs <;> omega
  unfold longestMatch
  dsimp only
  rw [hmin]
  by_cases hsmall : min 514 (band.length - pos) < 3
  · rw [if_pos hsmall]
    refine (FirstBest.start _ 0).stop (Nat.zero_le 64) ?_
    intro j _
    have hle := matchLen_le band pos (table.dist j) (min 514 (band.length - pos))
    rw [slotScore, if_pos (by omega)]
  · rw [if_neg hsmall]
    obtain ⟨hfirst, hthree⟩ := longestMatchLoop_firstBest band pos
      (min 514 (band.length - pos)) (not_lt.mp hsmall) table table.entries 0 0 0 rfl
      (Nat.zero_le 64) (FirstBest.start _ 0) (.inl rfl)
    generalize longestMatchLoop band pos (min 514 (band.length - pos)) table.entries 0 0 0 = r
      at hfirst hthree
    rcases hthree with hzero | hthree
    · rw [if_neg (by omega)]
      rw [hzero] at hfirst
      exact hfirst
    · rw [if_pos hthree]
      exact hfirst

/-- The naive search from a length no match exceeds. -/
theorem referenceMatchBelow_eq {band : Bytes} {pos : Nat} {table : Table} {best index : Nat}
    (h : FirstBest (fun j => slotScore band pos (min 514 (band.length - pos)) (table.dist j)) 64
      best index) (hbest : best = 0 ∨ 3 ≤ best) (n : Nat) (hn : best ≤ n) :
    referenceMatchBelow band pos table n = if best = 0 then none else some (best, index) := by
  induction n with
  | zero =>
    rw [referenceMatchBelow, if_pos (by omega)]
  | succ n ih =>
    rw [referenceMatchBelow]
    rcases Nat.eq_or_lt_of_le hn with heq | hlt
    · -- the first slot of this length
      have hne : best ≠ 0 := by omega
      have hindex := h.lt hne
      have hfind : ((List.range 64).find? fun i => Candidate band pos table (n + 1) i) =
          some index := by
        rw [List.find?_range_eq_some]
        refine ⟨?_, List.mem_range.mpr hindex, ?_⟩
        · rw [decide_eq_true_iff, candidate_iff hindex, h.reached hne]
          omega
        · intro j hj
          have hscore := h.first hne j hj
          rw [Bool.not_eq_true', decide_eq_false_iff_not, candidate_iff (by omega)]
          omega
      rw [hfind, if_neg hne, heq]
    · have hfind : ((List.range 64).find? fun i => Candidate band pos table (n + 1) i) = none := by
        rw [List.find?_eq_none]
        intro j hj
        have hj64 := List.mem_range.mp hj
        have hscore := h.le j hj64
        rw [decide_eq_true_iff, candidate_iff hj64]
        omega
      rw [hfind]
      exact ih (by omega)

/-- The pruned search equals the naive one. -/
theorem referenceMatch_eq (band : Bytes) (pos : Nat) (table : Table) :
    referenceMatch band pos table =
      if (longestMatch band pos table).1 = 0 then none else some (longestMatch band pos table) := by
  have h := longestMatch_firstBest band pos table
  have hthree : (longestMatch band pos table).1 = 0 ∨ 3 ≤ (longestMatch band pos table).1 := by
    by_cases hzero : (longestMatch band pos table).1 = 0
    · exact .inl hzero
    · exact .inr (longestMatch_spec band pos table hzero).1
  have hle : (longestMatch band pos table).1 ≤ 514 := by
    by_cases hzero : (longestMatch band pos table).1 = 0
    · omega
    · exact (longestMatch_spec band pos table hzero).2.1
  exact referenceMatchBelow_eq h hthree 514 hle

theorem three_le_of_referenceMatch {band : Bytes} {pos : Nat} {table : Table} {n i : Nat}
    (h : referenceMatch band pos table = some (n, i)) : 3 ≤ n := by
  rw [referenceMatch_eq] at h
  split_ifs at h with hzero
  have hthree := (longestMatch_spec band pos table hzero).1
  rwa [Option.some.inj h] at hthree

/-! ## The reference parse -/

/-- What a position of the band becomes. -/
inductive Item where
  | literal (b : UInt8)
  | copy (n i : Nat)
deriving Repr, DecidableEq

/-- At each position the longest match if there is one, and otherwise a
literal. -/
def referenceItems (band : Bytes) (table : Table) (pos : Nat) : List Item :=
  if pos < band.length then
    match _h : referenceMatch band pos table with
    | none => .literal (byteAt band pos) :: referenceItems band table (pos + 1)
    | some (n, i) => .copy n i :: referenceItems band table (pos + n)
  else []
termination_by band.length - pos
decreasing_by
  · omega
  · have := three_le_of_referenceMatch _h
    omega

/-- A run of literals in tokens of 128 bytes, the last one with what is left. -/
def cutRun (run : Bytes) : List Bytes :=
  if run = [] then []
  else if run.length ≤ 128 then [literalBytes run]
  else literalBytes (run.take 128) :: cutRun (run.drop 128)
termination_by run.length
decreasing_by
  rw [List.length_drop]
  omega

/-- The tokens of the items; `run` is the literals in front of them. -/
def itemTokens (run : Bytes) : List Item → List Bytes
  | [] => cutRun run
  | .literal b :: items => itemTokens (run ++ [b]) items
  | .copy n i :: items => cutRun run ++ matchBytes n i :: itemTokens [] items

/-- The first position at or after `min(len, 64)` with a match, at most
`min(len, 128)`. -/
def referenceRaw (band : Bytes) (table : Table) : Nat :=
  let lo := min band.length 64
  let hi := min band.length 128
  ((List.range' lo (hi - lo)).find? fun pos => (referenceMatch band pos table).isSome).getD hi

/-- The payload of the reference parse. -/
def referencePayload (band : Bytes) (table : Table) : Bytes :=
  let raw := referenceRaw band table
  let body := codec11Header raw table ++ band.take raw ++
    (itemTokens [] (referenceItems band table raw)).flatten
  body ++ Word.be32 (checksum body)

/-! ## The encoder writes the reference parse -/

theorem cutRun_flatten (run : Bytes) :
    (cutRun run).flatten = (literalToks run).flatMap Tok.bytes := by
  fun_induction cutRun run with
  | case1 => rw [literalToks, dif_pos rfl]; rfl
  | case2 run hne hle =>
    rw [literalToks, dif_neg hne, List.flatMap_cons, List.drop_eq_nil_of_le hle, literalToks,
      dif_pos rfl, Tok.bytes, List.take_of_length_le hle]
    rfl
  | case3 run hne hlt ih =>
    rw [literalToks, dif_neg hne, List.flatten_cons, ih, List.flatMap_cons]
    rfl

theorem segment_succ {band : Bytes} {a b : Nat} (hab : a ≤ b) (hb : b < band.length) :
    segment band a b ++ [byteAt band b] = segment band a (b + 1) := by
  refine List.append_cancel_left (?_ : band.take a ++ _ = band.take a ++ _)
  rw [← List.append_assoc, take_append_segment hab, take_append_segment (by omega), byteAt,
    List.getD_eq_getElem _ _ hb, List.take_append_getElem]

theorem referenceItems_none {band : Bytes} {table : Table} {pos : Nat} (hlt : pos < band.length)
    (h : referenceMatch band pos table = none) :
    referenceItems band table pos =
      .literal (byteAt band pos) :: referenceItems band table (pos + 1) := by
  rw [referenceItems, if_pos hlt]
  split
  · rfl
  · rename_i heq
    rw [h] at heq
    cases heq

theorem referenceItems_some {band : Bytes} {table : Table} {pos : Nat} {m : Nat × Nat}
    (hlt : pos < band.length) (h : referenceMatch band pos table = some m) :
    referenceItems band table pos =
      .copy m.1 m.2 :: referenceItems band table (pos + m.1) := by
  rw [referenceItems, if_pos hlt]
  split
  · rename_i heq
    rw [h] at heq
    cases heq
  · rename_i heq
    rw [h] at heq
    cases heq
    rfl

/-- The streaming encoder, which remembers where the run of literals started,
writes the tokens of the items. -/
theorem itemTokens_referenceItems (band : Bytes) (table : Table) (pos litStart : Nat)
    (hlit : litStart ≤ pos) (hpos : pos ≤ band.length) :
    (itemTokens (segment band litStart pos) (referenceItems band table pos)).flatten =
      let g := greedyToks band table pos litStart
      (g.1 ++ literalToks (band.drop g.2)).flatMap Tok.bytes := by
  fun_induction greedyToks band table pos litStart with
  | case1 pos litStart hlt h ih =>
    rw [referenceItems_none hlt (by rw [referenceMatch_eq, if_pos h]), itemTokens,
      segment_succ hlit hlt]
    exact ih (by omega) hlt
  | case2 pos litStart hlt h m hm rest ih =>
    have hrest : (itemTokens (segment band (pos + m.1) (pos + m.1))
        (referenceItems band table (pos + m.1))).flatten =
          (rest.1 ++ literalToks (band.drop rest.2)).flatMap Tok.bytes :=
      ih (le_refl _) hm.2.2.1
    have hnil : segment band (pos + m.1) (pos + m.1) = [] := by
      rw [segment, Nat.sub_self, List.take_zero]
    rw [hnil] at hrest
    rw [referenceItems_some hlt (by rw [referenceMatch_eq, if_neg h]), itemTokens,
      List.flatten_append, List.flatten_cons, hrest, cutRun_flatten]
    simp only [List.append_assoc, List.cons_append, List.flatMap_append, List.flatMap_cons, Tok.bytes]
    rfl
  | case3 pos litStart hge =>
    have hend : segment band litStart pos = band.drop litStart := by
      rw [segment, List.take_of_length_le]
      rw [List.length_drop]
      omega
    rw [referenceItems, if_neg hge, itemTokens, cutRun_flatten, hend]
    rfl

/-- The raw prefix of the encoder is the one of the reference parse. -/
theorem rawPrefix_eq (band : Bytes) (table : Table) (room raw : Nat) :
    rawPrefix band table room raw =
      ((List.range' raw room).find? fun pos => (referenceMatch band pos table).isSome).getD
        (raw + room) := by
  induction room generalizing raw with
  | zero => rfl
  | succ room ih =>
    rw [rawPrefix, List.range'_succ, List.find?_cons, referenceMatch_eq]
    split_ifs with h
    · rw [ih, Option.isSome_none, Nat.add_right_comm]
      rfl
    · rw [Option.isSome_some]
      rfl

theorem rawLength_eq (band : Bytes) (table : Table) :
    rawLength band table = referenceRaw band table := by
  have hlo : (if band.length < 64 then band.length else 64) = min band.length 64 := by
    split_ifs <;> omega
  have hhi : (if band.length < 128 then band.length else 128) = min band.length 128 := by
    split_ifs <;> omega
  have hroom : min band.length 64 + (min band.length 128 - min band.length 64) =
      min band.length 128 := by omega
  rw [rawLength, hlo, hhi, rawPrefix_eq, hroom]
  rfl

theorem encodedPayload_eq (band : Bytes) (table : Table) :
    (encodedPayload band table).bytes = referencePayload band table := by
  have hraw := (rawLength_bounds band table).2
  have htokens := itemTokens_referenceItems band table (rawLength band table)
    (rawLength band table) (le_refl _) (by omega)
  have hnil : segment band (rawLength band table) (rawLength band table) = [] := by
    rw [segment, Nat.sub_self, List.take_zero]
  rw [hnil] at htokens
  have hbody : (encodedPayload band table).body =
      codec11Header (rawLength band table) table ++ band.take (rawLength band table) ++
        (itemTokens [] (referenceItems band table (rawLength band table))).flatten := by
    rw [Payload.body, encodedPayload_front, htokens]
    rfl
  rw [Payload.bytes, ← checksum_eq_ofNat, hbody, rawLength_eq]
  rfl

/-- The encoder is the naive greedy parse.  At every position of every band,
under every table, `longest_match` returns the largest length a match may have
there and the first slot that reaches it, and 0 if there is no match.  What is
written of a band, whenever it fits, is the payload of the reference parse,
and it fits in the size bound. -/
theorem codec11Encode_reference (band : Bytes) (table : Table) :
    (∀ pos, let m := longestMatch band pos table
      (m.1 = 0 ∧ ∀ n i, ¬Candidate band pos table n i) ∨
      (Candidate band pos table m.1 m.2 ∧ (∀ n i, Candidate band pos table n i → n ≤ m.1) ∧
        ∀ i < m.2, ¬Candidate band pos table m.1 i)) ∧
    (referencePayload band table).length ≤ codec11EncodeBound band.length ∧
    ∀ outCap, (referencePayload band table).length ≤ outCap →
      codec11Encode band table outCap = ⟨OK, referencePayload band table⟩ := by
  refine ⟨?_, ?_, ?_⟩
  · intro pos m
    have h := longestMatch_firstBest band pos table
    change FirstBest _ 64 m.1 m.2 at h
    have hbelow (n i : Nat) (hc : Candidate band pos table n i) : 3 ≤ n ∧ n ≤ m.1 := by
      obtain ⟨hthree, hle⟩ := (candidate_iff hc.slot).mp hc
      exact ⟨hthree, hle.trans (h.le i hc.slot)⟩
    by_cases hzero : m.1 = 0
    · left
      refine ⟨hzero, ?_⟩
      intro n i hc
      have := hbelow n i hc
      omega
    · right
      have hthree := (longestMatch_spec band pos table hzero).1
      refine ⟨?_, ?_, ?_⟩
      · exact (candidate_iff (h.lt hzero)).mpr ⟨hthree, (h.reached hzero).ge⟩
      · intro n i hc
        exact (hbelow n i hc).2
      · intro i hi hc
        have hle := ((candidate_iff hc.slot).mp hc).2
        exact absurd (h.first hzero i hi) (not_lt.mpr hle)
  · rw [← encodedPayload_eq]
    exact (encodedPayload_spec band table).2.2
  · intro outCap hle
    rw [← encodedPayload_eq] at hle ⊢
    exact codec11Encode_eq hle

end Airbridge.Qpdl
