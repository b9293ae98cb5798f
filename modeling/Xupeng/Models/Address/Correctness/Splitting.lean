import Xupeng.Models.Address.Correctness.Text

/-!
# Splitting of host strings

Brackets, a single colon and no colon are told apart as they should be. A string with two or
more colons is taken as a node, but the service is left at the first colon.
-/

namespace Xupeng

/-- How a host string should be split. -/
inductive Splits : List Char → List Char × Option (List Char) → Prop
  | service (x p : List Char) : x ≠ [] → ']' ∉ x →
      Splits ('[' :: (x ++ ']' :: ':' :: p)) (x, some p)
  | brackets (x : List Char) : x ≠ [] → ']' ∉ x → Splits ('[' :: (x ++ [']'])) (x, none)
  | colon (h p : List Char) : h ≠ [] → h.head? ≠ some '[' → ':' ∉ h → ':' ∉ p →
      Splits (h ++ ':' :: p) (h, some p)
  | plain (host : List Char) : host.head? ≠ some '[' →
      host.count ':' = 0 ∨ 2 ≤ host.count ':' → Splits host (host, none)

/-- A string with several colons that is not in brackets. -/
def Bare (host : List Char) : Prop := host.head? ≠ some '[' ∧ 2 ≤ host.count ':'

/-! ## The two attempts -/

/-- The text in brackets, and what a colon behind them leads to. -/
theorem splitBrackets_of_bracket {x : List Char} (h : ']' ∉ x) (rest : List Char) :
    splitBrackets ('[' :: (x ++ ']' :: rest)) =
      (x, if rest.head? = some ':' then some rest.tail else none) := by
  have hfind : memchr ']' (('[' :: (x ++ ']' :: rest)).drop 1) = some x.length :=
    memchr_append h rest
  have hnext : ('[' :: (x ++ ']' :: rest))[x.length + 2]? = rest.head? := by
    rw [List.getElem?_cons_succ, List.getElem?_append_right (by omega), List.head?_eq_getElem?]
    simp
  have hdrop : ('[' :: (x ++ ']' :: rest)).drop (x.length + 3) = rest.tail := by
    rw [List.drop_succ_cons, List.drop_append, List.drop_eq_nil_of_le (by omega)]
    simp
  simp only [splitBrackets, hfind, hnext, hdrop, List.head?_cons, if_true]
  simp

theorem splitBrackets_of_ne {host : List Char} (h : host.head? ≠ some '[') :
    splitBrackets host = ([], none) := if_neg h

theorem splitColon_of_notMem {host : List Char} (h : ':' ∉ host) :
    splitColon host = ([], none) := by
  rw [splitColon, memchr_eq_none_iff.mpr h]

theorem splitColon_append {h : List Char} (hh : ':' ∉ h) (p : List Char) :
    splitColon (h ++ ':' :: p) =
      if ':' ∉ p then (h, some p) else ([], some (':' :: p)) := by
  have hdrop : (h ++ ':' :: p).drop (h.length + 1) = p := by
    rw [List.drop_append, List.drop_eq_nil_of_le (by omega)]
    simp
  simp only [splitColon, memchr_append hh, hdrop, Option.isNone_iff_eq_none, memchr_eq_none_iff,
    List.take_left', List.drop_left']

/-! ## What is passed -/

/-- An address in brackets, with a service or without. -/
theorem lookupArguments_of_bracket {x : List Char} (hne : x ≠ []) (h : ']' ∉ x)
    {rest : List Char} (hnul : '\x00' ∉ '[' :: (x ++ ']' :: rest)) :
    lookupArguments ('[' :: (x ++ ']' :: rest)) =
      (x, if rest.head? = some ':' then some rest.tail else none) := by
  have hx : '\x00' ∉ x := fun hmem => hnul (by simp [hmem])
  have hrest : '\x00' ∉ rest.tail := fun hmem => hnul (by simp [List.mem_of_mem_tail hmem])
  simp only [lookupArguments, splitBrackets_of_bracket h, hne, if_false, cString_of_notMem hx]
  split
  · rw [Option.map_some, cString_of_notMem hrest]
  · rfl

/-- A host and a service. -/
theorem lookupArguments_of_colon {h p : List Char} (hne : h ≠ []) (hbracket : h.head? ≠ some '[')
    (hh : ':' ∉ h) (hp : ':' ∉ p) (hnul : '\x00' ∉ h ++ ':' :: p) :
    lookupArguments (h ++ ':' :: p) = (h, some p) := by
  have hhead : (h ++ ':' :: p).head? ≠ some '[' := by rwa [List.head?_append_of_ne_nil _ hne]
  have hleft : '\x00' ∉ h := fun hmem => hnul (List.mem_append_left _ hmem)
  have hright : '\x00' ∉ p := fun hmem =>
    hnul (List.mem_append_right _ (List.mem_cons_of_mem _ hmem))
  simp only [lookupArguments, splitBrackets_of_ne hhead, splitColon_append hh, hp,
    not_false_eq_true, if_true, hne, if_false, cString_of_notMem hleft, Option.map_some,
    cString_of_notMem hright]

theorem lookupArguments_of_plain {host : List Char} (hbracket : host.head? ≠ some '[')
    (h : ':' ∉ host) (hnul : '\x00' ∉ host) : lookupArguments host = (host, none) := by
  simp only [lookupArguments, splitBrackets_of_ne hbracket, splitColon_of_notMem h, if_true,
    cString_of_notMem hnul, Option.map_none]

/-- With several colons the service is what starts at the first one. -/
theorem lookupArguments_of_bare {host : List Char} (h : Bare host) (hnul : '\x00' ∉ host) :
    ∃ front p, host = front ++ ':' :: p ∧ lookupArguments host = (host, some (':' :: p)) := by
  have hmem : ':' ∈ host := List.count_pos_iff.mp (by have := h.2; omega)
  obtain ⟨front, p, rfl, hfront⟩ := List.eq_append_cons_of_mem hmem
  refine ⟨front, p, rfl, ?_⟩
  have hp : ':' ∈ p := by
    have hcount := h.2
    rw [List.count_append, List.count_eq_zero_of_not_mem hfront, List.count_cons_self] at hcount
    exact List.count_pos_iff.mp (by omega)
  have hservice : '\x00' ∉ ':' :: p := fun hmem => hnul (List.mem_append_right _ hmem)
  simp only [lookupArguments, splitBrackets_of_ne h.1, splitColon_append hfront, hp, not_true,
    if_true, if_false, cString_of_notMem hnul, Option.map_some, cString_of_notMem hservice]

/-- Of the forms that are expected only the bare addresses are split wrongly. -/
theorem lookupArguments_iff {host : List Char} (hnul : '\x00' ∉ host)
    {expected : List Char × Option (List Char)} (h : Splits host expected) :
    lookupArguments host = expected ↔ ¬ Bare host := by
  cases h with
  | service x p hne hx =>
    exact iff_of_true (lookupArguments_of_bracket hne hx hnul) fun hbare => hbare.1 rfl
  | brackets x hne hx =>
    exact iff_of_true (lookupArguments_of_bracket hne hx hnul) fun hbare => hbare.1 rfl
  | colon h p hne hbracket hh hp =>
    refine iff_of_true (lookupArguments_of_colon hne hbracket hh hp hnul) fun hbare => ?_
    have hcount := hbare.2
    rw [List.count_append, List.count_eq_zero_of_not_mem hh, List.count_cons_self,
      List.count_eq_zero_of_not_mem hp] at hcount
    omega
  | plain _ hbracket hcount =>
    rcases hcount with hzero | htwo
    · refine iff_of_true (lookupArguments_of_plain hbracket (List.count_eq_zero.mp hzero) hnul) ?_
      intro hbare
      have htwo := hbare.2
      omega
    · have hbare : Bare host := ⟨hbracket, htwo⟩
      obtain ⟨front, p, -, hresult⟩ := lookupArguments_of_bare hbare hnul
      refine iff_of_false (fun heq => ?_) (not_not.mpr hbare)
      cases (congrArg Prod.snd hresult).symm.trans (congrArg Prod.snd heq)

/-! ## Texts of addresses -/

/-- The text of an address is split into its parts. -/
theorem lookupArguments_ipv6 (order : Endian) (a : IPv6Address) :
    lookupArguments (a.toString order) =
      (compressed order (wordsOf order a.addr.toList), some (decimal (a.getPort order).toNat)) := by
  have hlength := length_wordsOf order 8 a.addr.length_toList
  have hne : compressed order (wordsOf order a.addr.toList) ≠ [] := by
    intro hnil
    have hread := (a.readIPv6_compressed order).2
    rw [hnil] at hread
    cases hread
  have hnul : '\x00' ∉ '[' :: (compressed order (wordsOf order a.addr.toList) ++
      ']' :: ':' :: decimal (a.getPort order).toNat) := by
    simp [notMem_compressed order hlength (show 16 ≤ digitValue '\x00' by decide),
      notMem_decimal (show 10 ≤ digitValue '\x00' by decide)]
  rw [IPv6Address.toString, a.insert_eq, List.nil_append]
  exact lookupArguments_of_bracket hne (notMem_compressed order hlength (by decide) (by decide))
    hnul

/-- The same for the shorter addresses. -/
theorem lookupArguments_ipv4 (order : Endian) (a : IPv4Address) :
    lookupArguments (a.toString order) =
      (dotted (bytesOf (a.value order)), some (decimal (a.getPort order).toNat)) := by
  have hne : dotted (bytesOf (a.value order)) ≠ [] := by
    intro hnil
    have hread := readIPv4_bytesOf (a.value order)
    rw [hnil] at hread
    cases hread
  have hhead : (dotted (bytesOf (a.value order))).head? ≠ some '[' := fun hhead =>
    notMem_dotted (by decide) (by decide) _ (List.mem_of_head? hhead)
  have hnul : '\x00' ∉ dotted (bytesOf (a.value order)) ++
      ':' :: decimal (a.getPort order).toNat := by
    simp [notMem_dotted (show 10 ≤ digitValue '\x00' by decide),
      notMem_decimal (show 10 ≤ digitValue '\x00' by decide)]
  rw [IPv4Address.toString, a.insert_eq, List.nil_append]
  exact lookupArguments_of_colon hne hhead (notMem_dotted (by decide) (by decide) _)
    (notMem_decimal (by decide) _) hnul

/-- For every host string in one of the forms: it is split as it should be exactly if it does not
have several colons outside of brackets. The texts of addresses are split into the text of the
address and the port. -/
theorem lookup_splits_iff (host : List Char) (expected : List Char × Option (List Char))
    (order : Endian) (a : IPv4Address) (b : IPv6Address) :
    (host ≠ [] → '\x00' ∉ host → Splits host expected →
      (lookupArguments host = expected ↔ ¬ Bare host)) ∧
    (∃ text, a.toString order = text ++ ':' :: decimal (a.getPort order).toNat ∧
      readIPv4 text = some (a.value order) ∧
      lookupArguments (a.toString order) = (text, some (decimal (a.getPort order).toNat))) ∧
    ∃ text, b.toString order = '[' :: (text ++ ']' :: ':' :: decimal (b.getPort order).toNat) ∧
      readIPv6 text = some b.value ∧
      lookupArguments (b.toString order) = (text, some (decimal (b.getPort order).toNat)) := by
  refine ⟨fun _ hnul h => lookupArguments_iff hnul h, ?_, ?_⟩
  · exact ⟨_, a.insert_eq order [], readIPv4_bytesOf _, lookupArguments_ipv4 order a⟩
  · exact ⟨_, b.insert_eq order [], (b.readIPv6_compressed order).2, lookupArguments_ipv6 order b⟩

/-- The loopback address in brackets with a service, and without brackets. -/
theorem lookup_splits_loopback :
    lookupArguments "[::1]:80".toList = ("::1".toList, some "80".toList) ∧
      lookupArguments "::1".toList ≠ ("::1".toList, none) := by
  have hsplits (host : List Char) (expected : List Char × Option (List Char)) :=
    (lookup_splits_iff host expected .little ⟨afInet, 0, 0⟩ ⟨afInet6, 0, .replicate 16 0⟩).1
  constructor
  · refine (hsplits _ _ (by decide) (by decide) ?_).mpr fun hbare => hbare.1 rfl
    exact .service "::1".toList "80".toList (by decide) (by decide)
  · intro h
    refine (hsplits _ _ (by decide) (by decide) ?_).mp h ⟨by decide, by decide⟩
    exact .plain _ (by decide) (Or.inr (by decide))

/-- The loopback address is a node with no service, and comes out with the service `::1`. -/
theorem lookup_bare_literal :
    Splits [':', ':', '1'] ([':', ':', '1'], none) ∧
      lookupArguments [':', ':', '1'] = ([':', ':', '1'], some [':', ':', '1']) := by
  refine ⟨.plain _ (by decide) (Or.inr (by decide)), by decide⟩

end Xupeng
