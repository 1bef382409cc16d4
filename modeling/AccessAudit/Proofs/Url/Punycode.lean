import AccessAudit.Proofs.Basic
import AccessAudit.Url.Punycode
import Mathlib.Tactic.Ring

/-!
# Labels beyond ASCII are read back

The writer goes over the label once for each of its characters beyond ASCII, and the reader inserts these
characters one by one.  While the writer stands between two places of the label, the reader has in hand those
characters that it has been told of, and the distance that has not been written yet leads from the place of the
reader to that of the writer.
-/

namespace AccessAudit
namespace Url
namespace Punycode

/-! ### Distances -/

/-- A letter or digit of a distance. -/
def IsDigit (c : Char) : Prop :=
  ∃ n < 36, c = digit n

theorem digitValue?_digit :
    ∀ n < 36, digitValue? (digit n) = some n := by
  decide

theorem isDigit_of_mem_encodeDistance
    {bias position q : Nat}
    {c : Char}
    (h : c ∈ encodeDistance bias position q) :
    IsDigit c := by
  induction position, q using encodeDistance.induct bias with
  | case1 position q t hq =>
      have ht := (threshold_bounds position bias).2
      rw [encodeDistance, if_pos hq] at h
      exact ⟨q, by omega, List.mem_singleton.mp h⟩
  | case2 position q t hq ih =>
      have ht := threshold_bounds position bias
      have hmod := Nat.mod_lt (q - threshold position bias) (show 0 < 36 - threshold position bias by omega)
      rw [encodeDistance, if_neg hq] at h
      obtain rfl | h := List.mem_cons.mp h
      · exact ⟨_, by omega, rfl⟩
      · exact ih h

theorem encodeDistance_ne_nil
    (bias position q : Nat) :
    encodeDistance bias position q ≠ [] := by
  rw [encodeDistance]
  split <;> exact List.cons_ne_nil _ _

/-- A distance is read back. -/
theorem decodeDistance_encodeDistance
    (bias position q weight sum : Nat)
    (rest : List Char) :
    decodeDistance bias position weight sum (encodeDistance bias position q ++ rest) =
      some (sum + q * weight, rest) := by
  induction position, q using encodeDistance.induct bias generalizing weight sum with
  | case1 position q t hq =>
      have ht := (threshold_bounds position bias).2
      rw [encodeDistance, if_pos hq, List.singleton_append, decodeDistance, digitValue?_digit q (by omega)]
      exact if_pos hq
  | case2 position q t hq ih =>
      have ht : 1 ≤ t ∧ t ≤ 26 := threshold_bounds position bias
      have hmod : (q - t) % (36 - t) < 36 - t := Nat.mod_lt (q - t) (by omega)
      have hvalue := digitValue?_digit (t + (q - t) % (36 - t)) (by omega)
      have hsum : t + (q - t) % (36 - t) + (q - t) / (36 - t) * (36 - t) = q := by
        have := Nat.mod_add_div' (q - t) (36 - t)
        omega
      rw [encodeDistance, if_neg hq, List.cons_append, decodeDistance, hvalue]
      simp only [Option.bind_eq_bind, Option.bind_some]
      rw [if_neg (by omega), ih, Option.some.injEq, Prod.mk.injEq]
      refine ⟨?_, rfl⟩
      calc sum + (t + (q - t) % (36 - t)) * weight + (q - t) / (36 - t) * (weight * (36 - t))
          = sum + (t + (q - t) % (36 - t) + (q - t) / (36 - t) * (36 - t)) * weight := by ring
        _ = sum + q * weight := by rw [hsum]

/-! ### Points -/

theorem mem_pointsOf
    {label : List Char}
    {n : Nat} :
    n ∈ pointsOf label ↔ 128 ≤ n ∧ ∃ c ∈ label, c.toNat = n := by
  rw [pointsOf, (pairwise_foldr_distinct (pairwise_mergeSort _)).2 n, List.mem_mergeSort, List.mem_filter,
    List.mem_map, decide_eq_true_eq]
  exact and_comm

theorem pairwise_pointsOf
    (label : List Char) :
    (pointsOf label).Pairwise (· < ·) :=
  (pairwise_foldr_distinct (pairwise_mergeSort _)).1

/-! ### Writer and reader -/

/-- What is known while a label is read. -/
structure Reading where
  point : Nat
  place : Nat
  bias : Nat
  first : Bool
  label : List Char

/-- The label that the rest of a text gives. -/
def Reading.finish (r : Reading) (fuel : Nat) (s : List Char) : Option (List Char) :=
  decodePoints fuel r.point r.place r.bias r.first r.label s

/-- Reading a text leads from one state to another. -/
def Reading.Reaches (r r' : Reading) (s : List Char) : Prop :=
  ∀ fuel rest, (s ++ rest).length ≤ fuel →
    ∃ fuel', rest.length ≤ fuel' ∧ r.finish fuel (s ++ rest) = r'.finish fuel' rest

theorem Reading.reaches_nil
    (r : Reading) :
    r.Reaches r [] :=
  fun fuel _ hfuel => ⟨fuel, hfuel, rfl⟩

theorem Reading.Reaches.append
    {r r' r'' : Reading}
    {s t : List Char}
    (h : r.Reaches r' s)
    (h' : r'.Reaches r'' t) :
    r.Reaches r'' (s ++ t) := by
  intro fuel rest hfuel
  rw [List.append_assoc] at hfuel ⊢
  obtain ⟨fuel', hfuel', heq⟩ := h fuel (t ++ rest) hfuel
  obtain ⟨fuel'', hfuel'', heq'⟩ := h' fuel' rest hfuel'
  exact ⟨fuel'', hfuel'', heq.trans heq'⟩

/-- One distance inserts one character. -/
theorem Reading.reaches_distance
    (r : Reading)
    {c : Char}
    {delta place : Nat}
    (hplace : place ≤ r.label.length)
    (hpoint : r.point ≤ c.toNat)
    (hbeyond : 128 ≤ c.toNat)
    (hdelta : r.point * (r.label.length + 1) + r.place + delta = c.toNat * (r.label.length + 1) + place) :
    r.Reaches
      { point := c.toNat
        place := place + 1
        bias := adapt delta (r.label.length + 1) r.first
        first := false
        label := r.label.take place ++ c :: r.label.drop place }
      (encodeDistance r.bias 36 delta) := by
  intro fuel rest hfuel
  obtain ⟨d, ds, hds⟩ := List.exists_cons_of_ne_nil (encodeDistance_ne_nil r.bias 36 delta)
  have hread := decodeDistance_encodeDistance r.bias 36 delta 1 0 rest
  rw [hds, List.length_append, List.length_cons] at hfuel
  obtain ⟨fuel, rfl⟩ := Nat.exists_eq_add_one_of_ne_zero (show fuel ≠ 0 by omega)
  have htotal : r.place + delta = (c.toNat - r.point) * (r.label.length + 1) + place := by
    rw [Nat.sub_mul]
    have := Nat.mul_le_mul_right (r.label.length + 1) hpoint
    omega
  have hdiv : (r.place + delta) / (r.label.length + 1) = c.toNat - r.point := by
    rw [htotal, Nat.mul_comm, Nat.mul_add_div (Nat.succ_pos _), Nat.div_eq_of_lt (by omega), Nat.add_zero]
  have hmod : (r.place + delta) % (r.label.length + 1) = place := by
    rw [htotal, Nat.mul_comm, Nat.mul_add_mod, Nat.mod_eq_of_lt (by omega)]
  refine ⟨fuel, by omega, ?_⟩
  have hcode : r.point + (c.toNat - r.point) = c.toNat := Nat.add_sub_cancel' hpoint
  rw [Nat.zero_add, Nat.mul_one] at hread
  rw [hds] at hread ⊢
  rw [List.cons_append] at hread ⊢
  simp only [Reading.finish, decodePoints, hread, Option.bind_eq_bind, Option.bind_some, hdiv, hmod, hcode]
  rw [if_pos ⟨c.valid, hbeyond⟩, Char.ofNat_toNat]

/-- What the reader has been told of when the writer, writing a character, stands between two parts of the
label: the lesser characters, and this one in the first part. -/
def told (point : Nat) (front back : List Char) : List Char :=
  front.filter (·.toNat ≤ point) ++ back.filter (·.toNat < point)

/-- The writer stands between two parts of the label, and the reader has followed. -/
structure Synced (start : List Char) (initial : Reading) (point : Nat) (front back : List Char)
    (p : Progress) (written : List Char) (r : Reading) : Prop where
  written_eq : p.written = start ++ written
  digits : ∀ c ∈ written, IsDigit c
  reaches : initial.Reaches r written
  bias : r.bias = p.bias
  first : r.first = p.first
  label : r.label = told point front back
  points : p.points = r.label.length
  point_le : r.point ≤ point
  distance : r.point * (p.points + 1) + r.place + p.delta =
    point * (p.points + 1) + (front.filter (·.toNat ≤ point)).length

/-- The writer goes over one character. -/
theorem Synced.step
    {start : List Char}
    {initial : Reading}
    {point : Nat}
    {front back : List Char}
    {p : Progress}
    {c : Char}
    (hbeyond : 128 ≤ point)
    (h : ∃ written r, Synced start initial point front (c :: back) p written r) :
    ∃ written r, Synced start initial point (front ++ [c]) back (pass point p c) written r := by
  obtain ⟨written, r, h⟩ := h
  rw [pass]
  split
  · next hlt =>
      have hle : c.toNat ≤ point := Nat.le_of_lt hlt
      refine ⟨written, r, h.written_eq, h.digits, h.reaches, h.bias, h.first, ?_, h.points, h.point_le, ?_⟩
      · simp [h.label, told, hlt, hle]
      · have := h.distance
        simp only [List.filter_append, List.length_append, List.filter_cons, hle, decide_true, if_true,
          List.filter_nil, List.length_cons, List.length_nil]
        omega
  · split
    · next hne heq =>
        subst heq
        have hlength : (front.filter (·.toNat ≤ c.toNat)).length ≤ r.label.length := by
          rw [h.label, told, List.length_append]
          exact Nat.le_add_right _ _
        have hdistance := h.distance
        rw [h.points] at hdistance
        have hstep := r.reaches_distance hlength h.point_le hbeyond hdistance
        rw [h.bias] at hstep
        have hlabel : r.label = told c.toNat front back := by
          rw [h.label, told, told, List.filter_cons_of_neg (by simp)]
        have htake : r.label.take (front.filter (·.toNat ≤ c.toNat)).length =
            front.filter (·.toNat ≤ c.toNat) := by
          rw [hlabel, told, List.take_left]
        have hdrop : r.label.drop (front.filter (·.toNat ≤ c.toNat)).length =
            back.filter (·.toNat < c.toNat) := by
          rw [hlabel, told, List.drop_left]
        rw [htake, hdrop] at hstep
        refine ⟨_, _, ?_, ?_, h.reaches.append hstep, ?_, rfl, ?_, ?_, Nat.le_refl _, ?_⟩
        · simp only [h.written_eq, List.append_assoc]
        · exact List.forall_mem_append.mpr ⟨h.digits, fun _ => isDigit_of_mem_encodeDistance⟩
        · simp only [h.points, h.first]
        · simp [told]
        · simp only [h.points, hlabel, told, List.length_append, List.length_cons]
          omega
        · simp
    · next hlt hne =>
        have hle : ¬ c.toNat ≤ point := by omega
        refine ⟨written, r, h.written_eq, h.digits, h.reaches, h.bias, h.first, ?_, h.points, h.point_le, ?_⟩
        · simp [h.label, told, hlt, hle]
        · simpa [hle] using h.distance

/-- The writer goes over the rest of the label. -/
theorem Synced.foldl
    {start : List Char}
    {initial : Reading}
    {point : Nat}
    {front back : List Char}
    {p : Progress}
    (hbeyond : 128 ≤ point)
    (h : ∃ written r, Synced start initial point front back p written r) :
    ∃ written r, Synced start initial point (front ++ back) [] (back.foldl (pass point) p) written r := by
  induction back generalizing front p with
  | nil => simpa using h
  | cons c back ih => simpa using ih (Synced.step hbeyond h)

/-- The writer turns to the next character that the label has. -/
theorem Synced.skip
    {start label : List Char}
    {initial : Reading}
    {next point : Nat}
    {p : Progress}
    (hle : next ≤ point)
    (hnone : ∀ c ∈ label, ¬ (next ≤ c.toNat ∧ c.toNat < point))
    (h : ∃ written r, Synced start initial next [] label p written r) :
    ∃ written r, Synced start initial point [] label
      { p with delta := p.delta + (point - next) * (p.points + 1) } written r := by
  obtain ⟨written, r, h⟩ := h
  refine ⟨written, r, h.written_eq, h.digits, h.reaches, h.bias, h.first, ?_, h.points,
    Nat.le_trans h.point_le hle, ?_⟩
  · rw [h.label]
    refine List.filter_congr fun c hc => ?_
    have := hnone c hc
    rw [decide_eq_decide]
    omega
  · have hsplit : point * (p.points + 1) = next * (p.points + 1) + (point - next) * (p.points + 1) := by
      rw [← Nat.add_mul, Nat.add_sub_cancel' hle]
    have := h.distance
    simp only [List.filter_nil, List.length_nil] at this ⊢
    omega

/-- Behind the end of the label the writer starts over. -/
theorem Synced.restart
    {start label : List Char}
    {initial : Reading}
    {point : Nat}
    {p : Progress}
    (h : ∃ written r, Synced start initial point label [] p written r) :
    ∃ written r, Synced start initial (point + 1) [] label { p with delta := p.delta + 1 } written r := by
  obtain ⟨written, r, h⟩ := h
  have htold : told point label [] = told (point + 1) [] label := by
    simp only [told, List.filter_nil, List.nil_append, List.append_nil, Nat.lt_add_one_iff]
  have hlength : (label.filter (·.toNat ≤ point)).length = p.points := by
    rw [h.points, h.label, told, List.filter_nil, List.append_nil]
  refine ⟨written, r, h.written_eq, h.digits, h.reaches, h.bias, h.first, htold ▸ h.label, h.points,
    Nat.le_succ_of_le h.point_le, ?_⟩
  have := h.distance
  rw [hlength] at this
  simp only [List.filter_nil, List.length_nil, Nat.add_mul, Nat.one_mul] at this ⊢
  omega

/-- At the end the reader has the whole label. -/
theorem encodePoints_reaches
    {start label : List Char}
    {initial : Reading}
    {points : List Nat}
    (hascending : points.Pairwise (· < ·))
    {next : Nat}
    {p : Progress}
    (hnext : ∀ point ∈ points, next ≤ point)
    (hbeyond : 128 ≤ next)
    (hall : ∀ c ∈ label, next ≤ c.toNat → c.toNat ∈ points)
    (h : ∃ written r, Synced start initial next [] label p written r) :
    ∃ written r, encodePoints label points next p = start ++ written ∧ (∀ c ∈ written, IsDigit c) ∧
      initial.Reaches r written ∧ r.label = label := by
  induction points generalizing next p with
  | nil =>
      obtain ⟨written, r, h⟩ := h
      refine ⟨written, r, h.written_eq, h.digits, h.reaches, ?_⟩
      rw [h.label, told, List.filter_nil, List.nil_append, List.filter_eq_self]
      intro c hc
      exact decide_eq_true (Nat.not_le.mp fun hle => List.not_mem_nil (hall c hc hle))
  | cons point points ih =>
      obtain ⟨hpoint, hpoints⟩ := List.pairwise_cons.mp hascending
      have hle := hnext point (List.mem_cons_self ..)
      have hnone : ∀ c ∈ label, ¬ (next ≤ c.toNat ∧ c.toNat < point) := by
        rintro c hc ⟨hlow, hhigh⟩
        obtain heq | hmem := List.mem_cons.mp (hall c hc hlow)
        · omega
        · have := hpoint _ hmem
          omega
      have hpassed := Synced.foldl (Nat.le_trans hbeyond hle) (Synced.skip hle hnone h)
      refine ih hpoints (fun n hn => hpoint n hn) (by omega) ?_ (Synced.restart hpassed)
      intro c hc hlow
      exact (List.mem_cons.mp (hall c hc (by omega))).resolve_left (by omega)

/-! ### Labels -/

/-- The state in which the characters of a label in ASCII are known. -/
def initialReading (label : List Char) : Reading :=
  { point := 128, place := 0, bias := 72, first := true, label := label.filter (·.toNat < 128) }

theorem encode_reaches
    (label : List Char) :
    ∃ written r,
      encode label =
        (if label.filter (·.toNat < 128) = [] then [] else label.filter (·.toNat < 128) ++ ['-']) ++ written ∧
      (∀ c ∈ written, IsDigit c) ∧ (initialReading label).Reaches r written ∧ r.label = label := by
  refine encodePoints_reaches (pairwise_pointsOf label) (fun n hn => (mem_pointsOf.mp hn).1)
    (Nat.le_refl _) (fun c hc hbeyond => mem_pointsOf.mpr ⟨hbeyond, c, hc, rfl⟩) ?_
  exact ⟨[], initialReading label, (List.append_nil _).symm, nofun, Reading.reaches_nil _, rfl, rfl, rfl, rfl,
    Nat.le_refl _, rfl⟩

theorem IsDigit.ascii
    {c : Char}
    (h : IsDigit c) :
    c.toNat < 128 ∧ c ≠ '-' := by
  obtain ⟨n, hn, rfl⟩ := h
  revert n
  decide

/-- The characters of a label that is carried in ASCII. -/
theorem mem_encode
    {label : List Char}
    {c : Char}
    (h : c ∈ encode label) :
    c ∈ label ∧ c.toNat < 128 ∨ c = '-' ∨ IsDigit c := by
  obtain ⟨written, _, hencode, hdigits, _, _⟩ := encode_reaches label
  rw [hencode, List.mem_append] at h
  obtain h | h := h
  · split at h
    · cases h
    · obtain h | h := List.mem_append.mp h
      · rw [List.mem_filter, decide_eq_true_eq] at h
        exact .inl h
      · exact .inr (.inl (List.mem_singleton.mp h))
  · exact .inr (.inr (hdigits c h))

/-- A label is read back from the form in which it is carried. -/
theorem decode?_encode
    (label : List Char) :
    decode? (encode label) = some label := by
  obtain ⟨written, r, hencode, hdigits, hreaches, hlabel⟩ := encode_reaches label
  have hno : ∀ c ∈ written, c ≠ '-' := fun c hc => (hdigits c hc).ascii.2
  have hascii : (encode label).all (·.toNat < 128) = true := by
    rw [List.all_eq_true]
    intro c hc
    obtain ⟨-, hc⟩ | rfl | hc := mem_encode hc
    · exact decide_eq_true hc
    · decide
    · exact decide_eq_true hc.ascii.1
  rw [decode?, if_pos hascii]
  have htail : ((encode label).reverse.takeWhile (· ≠ '-')).reverse = written := by
    rw [hencode, List.reverse_append, List.takeWhile_append_of_pos (by simpa using hno)]
    split
    · simp
    · simp
  have hplain : ((encode label).take ((encode label).length - written.length)).dropLast =
      label.filter (·.toNat < 128) := by
    rw [hencode, List.length_append, Nat.add_sub_cancel, List.take_left]
    split
    · next hnil => rw [hnil]; rfl
    · simp
  simp only [htail, hplain]
  obtain ⟨fuel, _, hread⟩ := hreaches written.length [] (by simp)
  rw [List.append_nil] at hread
  refine hread.trans ?_
  rw [Reading.finish, hlabel]
  cases fuel <;> rfl

end Punycode
end Url
end AccessAudit
