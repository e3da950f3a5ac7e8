import CodeWeaving.Proofs.Stream.SessionRuns
import CodeWeaving.Weaving.Locate

/-! Where injection points are: a shift goes along the links of a stream as far as its ends allow,
so that a point stands for the places of its matches, moved within the code, each once and in
order. -/
namespace CodeWeaving

section Duplicates

variable {α β : Type} [BEq α]

theorem eraseDups_sublist (xs : List α) : xs.eraseDups.Sublist xs := by
  induction hn : xs.length using Nat.strongRecOn generalizing xs with
  | ind n ih =>
    cases xs with
    | nil => exact .refl _
    | cons x xs =>
      rw [List.eraseDups_cons]
      have hlt : (xs.filter fun y => !y == x).length < n :=
        hn ▸ Nat.lt_succ_of_le (List.length_filter_le _ _)
      exact .cons_cons x ((ih _ hlt _ rfl).trans List.filter_sublist)

theorem nodup_eraseDups [LawfulBEq α] (xs : List α) : xs.eraseDups.Nodup := by
  induction hn : xs.length using Nat.strongRecOn generalizing xs with
  | ind n ih =>
    cases xs with
    | nil => exact .nil
    | cons x xs =>
      rw [List.eraseDups_cons, List.nodup_cons]
      refine ⟨by simp, ih _ ?_ _ rfl⟩
      rw [← hn, List.length_cons]
      exact Nat.lt_succ_of_le (List.length_filter_le _ _)

/-- What is told apart by a function may be told apart before it. -/
theorem eraseDups_map [LawfulBEq α] [BEq β] [LawfulBEq β] {f : α → β} {xs : List α}
    (hf : ∀ x ∈ xs, ∀ y ∈ xs, f x = f y → x = y) :
    (xs.map f).eraseDups = xs.eraseDups.map f := by
  induction hn : xs.length using Nat.strongRecOn generalizing xs with
  | ind n ih =>
    cases xs with
    | nil => rfl
    | cons x xs =>
      have hfilter : (xs.map f).filter (fun y => !y == f x) =
          (xs.filter fun y => !y == x).map f := by
        rw [List.filter_map]
        refine congrArg _ (List.filter_congr fun y hy => ?_)
        have hiff : f y = f x ↔ y = x :=
          ⟨hf y (List.mem_cons_of_mem _ hy) x List.mem_cons_self, fun h => h ▸ rfl⟩
        change (!f y == f x) = !y == x
        rw [Bool.eq_iff_iff, Bool.not_eq_true', Bool.not_eq_true', beq_eq_false_iff_ne,
          beq_eq_false_iff_ne, ne_eq, ne_eq, hiff]
      have hlt : (xs.filter fun y => !y == x).length < n :=
        hn ▸ Nat.lt_succ_of_le (List.length_filter_le _ _)
      have hsub : ∀ y ∈ xs.filter (fun y => !y == x), y ∈ x :: xs := fun y hy =>
        List.mem_cons_of_mem _ (List.mem_of_mem_filter hy)
      rw [List.map_cons, List.eraseDups_cons, hfilter, List.eraseDups_cons, List.map_cons,
        ih _ hlt (fun y hy z hz => hf y (hsub y hy) z (hsub z hz)) rfl]

end Duplicates

/-- Choosing by ordinal takes nothing twice and nothing new. -/
theorem sublist_of_chooseOrdinal {α : Type} {found chosen : List α} {ordinal : Int32}
    (h : chooseOrdinal found ordinal = .ok chosen) : chosen.Sublist found := by
  unfold chooseOrdinal at h
  split at h
  · cases h
    exact .refl _
  · split at h <;> cases h
    cases hget : found[ordinal.toInt.toNat]? with
    | none => exact List.nil_sublist _
    | some x => exact List.singleton_sublist.2 (List.mem_of_getElem? hget)

namespace Code

variable {code : Code} {test : Instruction → Bool} {p : Nat}

theorem mem_positions : p ∈ code.positions test ↔ ∃ i, code[p]? = some i ∧ test i = true := by
  simp [positions, List.mem_zipIdx_iff_getElem?]

theorem sorted_positions : (code.positions test).Pairwise (· < ·) := by
  have hall : (code.zipIdx.map Prod.snd).Pairwise (· < ·) := by
    rw [List.zipIdx_map_snd]
    exact List.pairwise_lt_range'
  exact hall.sublist (List.filter_sublist.map _)

theorem nodup_positions : (code.positions test).Nodup :=
  sorted_positions.imp Nat.ne_of_lt

theorem lt_of_mem_positions (h : p ∈ code.positions test) : p < code.length := by
  obtain ⟨i, hi, -⟩ := mem_positions.1 h
  exact (List.getElem?_eq_some_iff.1 hi).1

end Code

theorem Selector.lt_of_matches? {s : Selector} {code : Code} {found : List Nat} {p : Nat}
    (h : s.matches? code = .ok found) (hp : p ∈ found) : p < code.length := by
  unfold matches? at h
  split at h
  · cases h
    split at hp
    · cases hp
    · rename_i hne
      obtain rfl := List.mem_singleton.1 hp
      exact List.length_pos_iff.2 (by simpa using hne)
  · cases h
    exact Code.lt_of_mem_positions hp
  all_goals exact Code.lt_of_mem_positions ((sublist_of_chooseOrdinal h).subset hp)

namespace InjectionPoint

/-- A position moved along code of some size, as far as its ends allow. -/
def moved (size position : Nat) (shift : Int32) : Nat :=
  (min (max (position + shift.toInt) 0) (size - 1 : Nat)).toNat

/-- Where the point is in the code, by the positions of its matches. -/
def positions (p : InjectionPoint) (code : Code) : Except WeaveError (List Nat) := do
  let found ← p.selector.matches? code
  pure (found.map fun i => moved code.length i p.shift).eraseDups

theorem moved_lt {size position : Nat} (h : position < size) (shift : Int32) :
    moved size position shift < size := by
  unfold moved
  omega

theorem lt_of_positions {point : InjectionPoint} {code : Code} {places : List Nat}
    (h : point.positions code = .ok places) : ∀ p ∈ places, p < code.length := by
  obtain ⟨found, hfound, h⟩ := bind_eq_ok.1 h
  cases h
  intro p hp
  obtain ⟨q, hq, rfl⟩ := List.mem_map.1 (List.mem_eraseDups.1 hp)
  exact moved_lt (Selector.lt_of_matches? hfound hq) point.shift

theorem moved_mono {size p q : Nat} (h : p ≤ q) (shift : Int32) :
    moved size p shift ≤ moved size q shift := by
  unfold moved
  omega

end InjectionPoint

namespace CodeStream

variable {s : CodeStream} {a b : Anchor} {p q n : Nat} {distance : Int32} {positions : List Nat}

section Walks

theorem length_anchors : s.anchors.length = s.instructions.length := by
  simp [anchors, instructions]

theorem exists_anchored (h : s.anchors[p]? = some a) : ∃ i, s.anchored[p]? = some (a, i) := by
  rw [← map_fst_anchored, List.getElem?_map, Option.map_eq_some_iff] at h
  obtain ⟨⟨_, i⟩, hi, rfl⟩ := h
  exact ⟨i, hi⟩

theorem split_of_getElem? {i : Instruction} (h : s.anchored[p]? = some (a, i)) :
    s.anchored = s.anchored.take p ++ (a, i) :: s.anchored.drop (p + 1) := by
  obtain ⟨hlt, hget⟩ := List.getElem?_eq_some_iff.1 h
  rw [← hget, ← List.drop_eq_getElem_cons hlt, List.take_append_drop]

theorem next?_of_getElem? (h : s.anchors[p]? = some a) : s.next? a = .ok s.anchors[p + 1]? := by
  obtain ⟨i, hi⟩ := exists_anchored h
  rw [(neighbours (split_of_getElem? hi)).1, ← map_fst_anchored, List.getElem?_map,
    List.head?_drop]

theorem prev?_of_getElem? (h : s.anchors[p]? = some a) :
    s.prev? a = .ok (s.anchors.take p).getLast? := by
  obtain ⟨i, hi⟩ := exists_anchored h
  rw [(neighbours (split_of_getElem? hi)).2, ← map_fst_anchored, ← List.map_take,
    List.getLast?_map]

/-- So many steps forwards, or all there are. -/
theorem walk_next? (h : s.anchors[p]? = some a) (n : Nat) : ∃ b, walk s.next? n a = .ok b ∧
    s.anchors[min (p + n) (s.anchors.length - 1)]? = some b := by
  induction n generalizing p a with
  | zero =>
    have hlt := (List.getElem?_eq_some_iff.1 h).1
    exact ⟨a, rfl, by rwa [Nat.add_zero, Nat.min_eq_left (by omega)]⟩
  | succ n ih =>
    have hlt := (List.getElem?_eq_some_iff.1 h).1
    have hnext := next?_of_getElem? h
    cases hb : s.anchors[p + 1]? with
    | none =>
      have hend := List.getElem?_eq_none_iff.1 hb
      refine ⟨a, by rw [walk, hnext, hb]; rfl, ?_⟩
      rwa [Nat.min_eq_right (by omega), show s.anchors.length - 1 = p by omega]
    | some b =>
      obtain ⟨c, hwalk, hc⟩ := ih hb
      refine ⟨c, by rw [walk, hnext, hb]; exact hwalk, ?_⟩
      rwa [Nat.add_right_comm] at hc

/-- So many steps backwards, or all there are. -/
theorem walk_prev? (h : s.anchors[p]? = some a) (n : Nat) : ∃ b, walk s.prev? n a = .ok b ∧
    s.anchors[p - n]? = some b := by
  induction n generalizing p a with
  | zero => exact ⟨a, rfl, h⟩
  | succ n ih =>
    have hprev := prev?_of_getElem? h
    cases p with
    | zero => exact ⟨a, by rw [walk, hprev]; rfl, by rwa [Nat.zero_sub]⟩
    | succ q =>
      have hlt := Nat.lt_of_succ_lt (List.getElem?_eq_some_iff.1 h).1
      have hlast : (s.anchors.take (q + 1)).getLast? = some s.anchors[q] := by
        rw [List.getLast?_take, if_neg (Nat.succ_ne_zero q), Nat.add_sub_cancel,
          List.getElem?_eq_getElem hlt]
        rfl
      obtain ⟨c, hwalk, hc⟩ := ih (List.getElem?_eq_getElem hlt)
      exact ⟨c, by rw [walk, hprev, hlast]; exact hwalk, by rwa [Nat.succ_sub_succ]⟩

/-- A shift comes to the place that is the other one moved. -/
theorem shift_eq (h : s.anchors[p]? = some a) (distance : Int32) :
    ∃ b, s.shift a distance = .ok b ∧
      s.anchors[InjectionPoint.moved s.instructions.length p distance]? = some b := by
  have hlt := (List.getElem?_eq_some_iff.1 h).1
  rw [← length_anchors, shift]
  by_cases hforwards : 0 < distance
  · rw [if_pos hforwards]
    have hmoved : InjectionPoint.moved s.anchors.length p distance =
        min (p + distance.toInt.natAbs) (s.anchors.length - 1) := by
      rw [Int32.lt_iff_toInt_lt] at hforwards
      simp only [InjectionPoint.moved, Int32.toInt_zero] at hforwards ⊢
      omega
    rw [hmoved]
    exact walk_next? h _
  · rw [if_neg hforwards]
    have hmoved : InjectionPoint.moved s.anchors.length p distance =
        p - distance.toInt.natAbs := by
      rw [Int32.lt_iff_toInt_lt] at hforwards
      simp only [InjectionPoint.moved, Int32.toInt_zero] at hforwards ⊢
      omega
    rw [hmoved]
    exact walk_prev? h _

end Walks

section Sites

/-- The anchor of the instruction at a position. -/
def anchorAt (s : CodeStream) (p : Nat) : Anchor := s.anchor ((s.entries[p]?.map Prod.fst).getD 0)

theorem getElem?_anchors (h : p < s.instructions.length) :
    s.anchors[p]? = some (s.anchorAt p) := by
  rw [instructions, List.length_map] at h
  simp [anchors, anchorAt, h]

theorem eq_anchorAt (h : s.anchors[p]? = some a) : a = s.anchorAt p := by
  have hlt := length_anchors (s := s) ▸ (List.getElem?_eq_some_iff.1 h).1
  exact Option.some.inj (h.symm.trans (getElem?_anchors hlt))

theorem anchorAt_inj (hp : p < s.instructions.length) (hq : q < s.instructions.length)
    (h : s.anchorAt p = s.anchorAt q) : p = q := by
  have hget : s.anchors[p]? = s.anchors[q]? := by rw [getElem?_anchors hp, getElem?_anchors hq, h]
  exact (List.getElem?_inj (length_anchors ▸ hp) nodup_anchors).1 hget

theorem sites_cons (h : p < s.instructions.length) : ∃ i, s.Names (s.anchorAt p) i ∧
    ∀ positions, s.sites (p :: positions) = ⟨s.anchorAt p, i⟩ :: s.sites positions := by
  rw [instructions, List.length_map] at h
  have hget := List.getElem?_eq_getElem h
  have hanchor : s.anchorAt p = s.anchor s.entries[p].1 := by rw [anchorAt, hget]; rfl
  refine ⟨s.entries[p].2, ?_, fun positions => ?_⟩
  · rw [hanchor]
    exact ⟨rfl, List.mem_of_getElem? hget⟩
  · rw [sites, List.filterMap_cons_some (by rw [hget]; rfl), hanchor]
    rfl

theorem map_anchor_sites (h : ∀ p ∈ positions, p < s.instructions.length) :
    (s.sites positions).map Site.anchor = positions.map s.anchorAt := by
  induction positions with
  | nil => rfl
  | cons p positions ih =>
    obtain ⟨hp, hrest⟩ := List.forall_mem_cons.1 h
    obtain ⟨i, -, hsites⟩ := sites_cons hp
    rw [hsites, List.map_cons, List.map_cons, ih hrest]

theorem mapM_shift_sites (h : ∀ p ∈ positions, p < s.instructions.length) (distance : Int32) :
    ((s.sites positions).mapM fun site => s.shift site.anchor distance) =
      .ok ((positions.map fun p =>
        InjectionPoint.moved s.instructions.length p distance).map s.anchorAt) := by
  induction positions with
  | nil => rfl
  | cons p positions ih =>
    obtain ⟨hp, hrest⟩ := List.forall_mem_cons.1 h
    obtain ⟨i, -, hsites⟩ := sites_cons hp
    obtain ⟨b, hshift, hb⟩ := shift_eq (getElem?_anchors hp) distance
    rw [hsites, List.mapM_cons, hshift, ih hrest, eq_anchorAt hb]
    rfl

theorem mapM_site_anchorAt (h : ∀ p ∈ positions, p < s.instructions.length) :
    (positions.map s.anchorAt).mapM s.site = .ok (s.sites positions) := by
  induction positions with
  | nil => rfl
  | cons p positions ih =>
    obtain ⟨hp, hrest⟩ := List.forall_mem_cons.1 h
    obtain ⟨i, hi, hsites⟩ := sites_cons hp
    have hsite : s.site (s.anchorAt p) = .ok ⟨s.anchorAt p, i⟩ := by
      rw [site, get_of_names hi]
      rfl
    rw [hsites, List.map_cons, List.mapM_cons, hsite, ih hrest]
    rfl

/-- A point stands for the places of its matches, moved within the code, each once. -/
theorem locate_eq (s : CodeStream) (p : InjectionPoint) :
    s.locate p = (p.positions s.instructions).map s.sites := by
  unfold locate InjectionPoint.positions
  cases hfound : p.selector.matches? s.instructions with
  | error e => rfl
  | ok found =>
    have hlt : ∀ q ∈ found, q < s.instructions.length := fun q => Selector.lt_of_matches? hfound
    have hmoved : ∀ q ∈ found.map fun q => InjectionPoint.moved s.instructions.length q p.shift,
        q < s.instructions.length := by
      intro q hq
      obtain ⟨r, hr, rfl⟩ := List.mem_map.1 hq
      exact InjectionPoint.moved_lt (hlt r hr) p.shift
    have hdistinct := eraseDups_map (f := s.anchorAt) fun q hq r hr =>
      anchorAt_inj (hmoved q hq) (hmoved r hr)
    change ((Except.mapError _ _) >>= _) = _
    rw [mapM_shift_sites hlt]
    change Except.mapError _ (List.mapM _ (List.eraseDups _)) = _
    rw [hdistinct, mapM_site_anchorAt fun q hq => hmoved q (List.mem_eraseDups.1 hq)]
    rfl

theorem map_sites (h : ∀ p ∈ positions, p < s.instructions.length) :
    (s.sites positions).map (fun site => some (site.anchor, site.instruction)) =
      positions.map (s.anchored[·]?) := by
  induction positions with
  | nil => rfl
  | cons p positions ih =>
    obtain ⟨hp, hrest⟩ := List.forall_mem_cons.1 h
    rw [instructions, List.length_map] at hp
    have hget := List.getElem?_eq_getElem hp
    have hat : s.anchored[p]? = some (s.anchor s.entries[p].1, s.entries[p].2) := by
      rw [anchored, List.getElem?_map, hget]
      rfl
    rw [sites, List.filterMap_cons_some (by rw [hget]; rfl), List.map_cons, List.map_cons, hat]
    exact congrArg _ (ih hrest)

end Sites

end CodeStream

/-- Numbers with a property: all of them, in order and each once. -/
structure Enumerates (l : List Nat) (P : Nat → Prop) : Prop where
  sorted : l.Pairwise (· < ·)
  mem : ∀ n, n ∈ l ↔ P n

namespace Selector

/-- Which instructions of code are of the selected sort. -/
inductive Selects (code : Code) : Selector → Nat → Prop
  | head : 0 < code.length → Selects code .head 0
  | returns {p kind} : code[p]? = some (.ret kind) → Selects code .returns p
  | call {target ordinal p kind m} : code[p]? = some (.invoke kind m) →
      target.accepts m.identity = true → Selects code (.calls target ordinal) p
  | fieldAccess {target ordinal p access f} : code[p]? = some (.field access f) →
      target.accepts f.identity = true → Selects code (.fieldAccesses target ordinal) p
  | allocation {target ordinal p cls} : code[p]? = some (.new cls) →
      target.accepts cls.text = true → Selects code (.allocations target ordinal) p
  | store {slot kind ordinal p n k} : code[p]? = some (.storeLocal n k) →
      (∀ wanted ∈ slot, wanted = n) → (∀ wanted ∈ kind, wanted = k) →
      Selects code (.locals .store slot kind ordinal) p
  | load {slot kind ordinal p n k} : code[p]? = some (.loadLocal n k) →
      (∀ wanted ∈ slot, wanted = n) → (∀ wanted ∈ kind, wanted = k) →
      Selects code (.locals .load slot kind ordinal) p

/-- Which of the matches a selector is for: one by its number, or all of them for -1. -/
def ordinal : Selector → Int32
  | .head | .returns => -1
  | .calls _ ordinal | .fieldAccesses _ ordinal | .allocations _ ordinal
  | .locals _ _ _ ordinal => ordinal

/-- All matches of a selector, whichever of them it is for. -/
def found (s : Selector) (code : Code) : List Nat :=
  match s with
  | .head => if code.isEmpty then [] else [0]
  | s => code.positions s.accepts

variable {s : Selector} {code : Code} {p : Nat} {i : Instruction}

theorem matches?_eq (s : Selector) (code : Code) :
    s.matches? code = chooseOrdinal (s.found code) s.ordinal := by
  cases s <;> rfl

theorem selects_of_accepts (hp : code[p]? = some i) (h : s.accepts i = true) :
    s.Selects code p := by
  unfold accepts at h
  split at h
  · cases i with
    | ret kind => exact .returns hp
    | _ => cases h
  · exact .call hp h
  · exact .fieldAccess hp h
  · exact .allocation hp h
  · simp only [Bool.and_eq_true, Option.all_eq_true, decide_eq_true_eq] at h
    exact .store hp h.1 h.2
  · simp only [Bool.and_eq_true, Option.all_eq_true, decide_eq_true_eq] at h
    exact .load hp h.1 h.2
  · cases h

theorem enumerates_found (s : Selector) (code : Code) :
    Enumerates (s.found code) (s.Selects code) := by
  by_cases hhead : s = .head
  · subst hhead
    unfold found
    cases code with
    | nil =>
      refine ⟨.nil, fun p => ⟨fun h => (List.not_mem_nil h).elim, fun h => ?_⟩⟩
      cases h
      contradiction
    | cons i code =>
      refine ⟨List.pairwise_singleton _ _, fun p => ⟨fun h => ?_, fun h => ?_⟩⟩
      · obtain rfl := List.mem_singleton.1 h
        exact .head (Nat.succ_pos _)
      · cases h
        exact List.mem_singleton.2 rfl
  · have hfound : s.found code = code.positions s.accepts := by
      cases s <;> first | rfl | exact absurd rfl hhead
    rw [hfound]
    refine ⟨Code.sorted_positions, fun p => Code.mem_positions.trans ⟨?_, ?_⟩⟩
    · rintro ⟨i, hp, hi⟩
      exact selects_of_accepts hp hi
    · intro h
      cases h with
      | head => exact absurd rfl hhead
      | returns hp => exact ⟨_, hp, rfl⟩
      | call hp h | fieldAccess hp h | allocation hp h => exact ⟨_, hp, h⟩
      | store hp hslot hkind | load hp hslot hkind =>
        refine ⟨_, hp, ?_⟩
        simp only [accepts, Bool.and_eq_true, Option.all_eq_true, decide_eq_true_eq]
        exact ⟨hslot, hkind⟩

theorem selects_of_matches? {matched : List Nat} (h : s.matches? code = .ok matched)
    (hp : p ∈ matched) : s.Selects code p := by
  rw [matches?_eq] at h
  exact ((s.enumerates_found code).mem p).1 ((sublist_of_chooseOrdinal h).subset hp)

end Selector

theorem chooseOrdinal_cases {α : Type} (found : List α) (k : Int32) :
    (k < -1 ∧ chooseOrdinal found k = .error (.unsupportedSelector (.ordinal k))) ∨
    -1 ≤ k ∧ chooseOrdinal found k =
      .ok (if k = -1 then found else found[k.toInt.toNat]?.toList) := by
  unfold chooseOrdinal
  have hminus : (-1 : Int32).toInt = -1 := rfl
  simp only [Int32.lt_iff_toInt_lt, Int32.le_iff_toInt_le, ← Int32.toInt_inj, hminus,
    Int32.toInt_zero]
  split
  · exact .inr ⟨by omega, rfl⟩
  · split
    · exact .inl ⟨by omega, rfl⟩
    · exact .inr ⟨by omega, rfl⟩

/-- A sorted list moved within code, each place once. -/
theorem InjectionPoint.enumerates_moved {found : List Nat} {size : Nat} (shift : Int32)
    (hsorted : found.Pairwise (· < ·)) (hlt : ∀ m ∈ found, m < size) :
    Enumerates (found.map fun m => moved size m shift).eraseDups fun q =>
      ∃ m ∈ found, (q : Int) = min (max (m + shift.toInt) 0) (size - 1) := by
  constructor
  · have hle : (found.map fun m => moved size m shift).Pairwise (· ≤ ·) :=
      List.pairwise_map.2 (hsorted.imp fun h => moved_mono (Nat.le_of_lt h) shift)
    exact ((hle.sublist (eraseDups_sublist _)).and (nodup_eraseDups _)).imp
      fun h => Nat.lt_of_le_of_ne h.1 h.2
  · intro q
    rw [List.mem_eraseDups, List.mem_map]
    refine exists_congr fun m => and_congr_right fun hm => ?_
    have hm := hlt m hm
    unfold moved
    omega

/-- A point that asks for a match below -1 is refused whatever there is. Any other stands for its
matches, or for the one asked for: as many instructions away as it says but within the code, in
program order and each place once. -/
theorem locate_spec (s : CodeStream) (p : InjectionPoint) :
    (p.selector.ordinal < -1 ∧
      s.locate p = .error (.unsupportedSelector (.ordinal p.selector.ordinal))) ∨
    -1 ≤ p.selector.ordinal ∧ ∃ found chosen places sites,
      Enumerates found (p.selector.Selects s.instructions) ∧
      chosen = (if p.selector.ordinal = -1 then found
        else found[p.selector.ordinal.toInt.toNat]?.toList) ∧
      Enumerates places (fun q => ∃ m ∈ chosen,
        (q : Int) = min (max (m + p.shift.toInt) 0) (s.instructions.length - 1)) ∧
      s.locate p = .ok sites ∧
      sites.map (fun site => some (site.anchor, site.instruction)) =
        places.map (s.anchored[·]?) := by
  rw [CodeStream.locate_eq, InjectionPoint.positions, Selector.matches?_eq]
  have hfound := Selector.enumerates_found p.selector s.instructions
  obtain ⟨hlow, hrefused⟩ | ⟨hhigh, hchosen⟩ :=
    chooseOrdinal_cases (p.selector.found s.instructions) p.selector.ordinal
  · exact .inl ⟨hlow, by rw [hrefused]; rfl⟩
  · have hmatches := Selector.matches?_eq p.selector s.instructions ▸ hchosen
    have hlt := fun m => Selector.lt_of_matches? (p := m) hmatches
    have hsorted := hfound.sorted.sublist (sublist_of_chooseOrdinal hchosen)
    have hplaces := InjectionPoint.enumerates_moved p.shift hsorted hlt
    refine .inr ⟨hhigh, _, _, _, _, hfound, rfl, hplaces, by rw [hchosen]; rfl,
      CodeStream.map_sites fun q hq => ?_⟩
    obtain ⟨m, hm, rfl⟩ := List.mem_map.1 (List.mem_eraseDups.1 hq)
    exact InjectionPoint.moved_lt (hlt m hm) p.shift

/-- A shift to before all code leads every match to the first instruction. -/
example : ((CodeStream.ofList 0 [.label ⟨0⟩, .ret none, .ret none]).locate
    ⟨.returns, Int32.minValue, .before⟩).map (List.map Site.anchor) = .ok [⟨0, 0⟩] := by
  decide +kernel

end CodeWeaving
