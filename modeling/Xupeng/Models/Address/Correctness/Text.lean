import Xupeng.Models.Address.Interpretation.Bits
import Xupeng.Models.Address.Interpretation.Groups

/-!
# Addresses are determined by their text

The loop over the groups writes those in front of the first zero group, skips the zero groups
that follow and writes all groups behind them. So the double colon stands for this run, also
where it starts or ends the address, and the text reads back as the address.
-/

namespace Xupeng

variable (host : Endian)

/-- The value of a group. -/
def group (addr : BitVec 16) : Nat := (byteswapOnLittleEndian host addr).toNat

theorem group_lt (addr : BitVec 16) : group host addr < 65536 :=
  (byteswapOnLittleEndian host addr).isLt

@[simp] theorem group_zero : group host 0#16 = 0 := by
  cases host <;> rfl

/-! ## The loop -/

/-- Behind the double colon every group is written. -/
theorem insertGroups_used (before : BitVec 16) (os : List Char) (words : List (BitVec 16)) :
    insertGroups host (some before) true os words =
      (true, os ++ words.flatMap fun addr => ':' :: hexadecimal (group host addr)) := by
  induction words generalizing before os with
  | nil => simp [insertGroups]
  | cons addr words ih =>
    simp [insertGroups, ih, group]

/-- Groups that are not zero are written. -/
theorem insertGroups_front {front : List (BitVec 16)} (h : ∀ addr ∈ front, addr ≠ 0)
    (os : List Char) (rest : List (BitVec 16)) :
    insertGroups host none false os (front ++ rest) =
      insertGroups host front.getLast? false (os ++ groupsText (front.map (group host))) rest := by
  induction front using List.reverseRecOn generalizing rest with
  | nil => simp [groupsText]
  | append_singleton front addr ih =>
    have haddr : addr ≠ 0 := h addr (List.mem_append_right _ List.mem_cons_self)
    have hlast : front.getLast? ≠ some 0#16 := fun hlast =>
      h 0#16 (List.mem_append_left _ (List.mem_of_getLast? hlast)) rfl
    rw [List.append_assoc, ih fun a ha => h a (List.mem_append_left _ ha), List.map_append,
      List.map_singleton, groupsText_concat, List.getLast?_concat, List.singleton_append,
      insertGroups, if_neg (fun hcond => haddr hcond.1)]
    cases front with
    | nil => simp [group]
    | cons a front => simp [hlast, group]

/-- A run of zero groups is skipped. -/
theorem insertGroups_zeros (before : Option (BitVec 16)) (n : Nat) (os : List Char)
    (rest : List (BitVec 16)) :
    insertGroups host before false os (List.replicate (n + 1) 0 ++ rest) =
      insertGroups host (some 0) false os rest := by
  induction n generalizing before with
  | zero => simp [insertGroups]
  | succ n ih =>
    rw [List.replicate_succ, List.cons_append, insertGroups, if_pos ⟨rfl, rfl⟩]
    exact ih (some 0)

/-- The first group behind the run. -/
theorem insertGroups_compress {addr : BitVec 16} (h : addr ≠ 0) (os : List Char)
    (rest : List (BitVec 16)) :
    insertGroups host (some 0) false os (addr :: rest) =
      (true, os ++ ':' :: ':' :: groupsText ((addr :: rest).map (group host))) := by
  rw [insertGroups, if_neg (fun hcond => h hcond.1), List.map_cons, groupsText_cons]
  simp [insertGroups_used, group, List.flatMap_map]

/-- The first run of zero groups. -/
theorem exists_run (words : List (BitVec 16)) :
    ∃ front n back, words = front ++ (List.replicate n 0 ++ back) ∧
      (∀ addr ∈ front, addr ≠ 0) ∧ (∀ addr ∈ back.head?, addr ≠ 0) ∧ (n = 0 → back = []) := by
  induction words with
  | nil => exact ⟨[], 0, [], rfl, nofun, nofun, fun _ => rfl⟩
  | cons addr words ih =>
    obtain ⟨front, n, back, rfl, hfront, hback, hn⟩ := ih
    by_cases haddr : addr = 0
    · cases front with
      | nil =>
        refine ⟨[], n + 1, back, ?_, nofun, hback, nofun⟩
        rw [haddr, List.replicate_succ]
        rfl
      | cons a front =>
        refine ⟨[], 1, a :: front ++ (List.replicate n 0 ++ back), ?_, nofun, ?_, nofun⟩
        · rw [haddr]
          rfl
        · intro addr ha
          cases ha
          exact hfront a List.mem_cons_self
    · refine ⟨addr :: front, n, back, rfl, fun a ha => ?_, hback, hn⟩
      rcases List.mem_cons.mp ha with rfl | hmem
      · exact haddr
      · exact hfront a hmem

/-- The text between the brackets. -/
def compressed (words : List (BitVec 16)) : List Char :=
  let (used_zeros, os) := insertGroups host none false [] words
  if used_zeros = false ∧ words[7]? = some 0 then os ++ [':', ':'] else os

/-- What is written is behind what was there. -/
theorem insertGroups_append (before : Option (BitVec 16)) (used_zeros : Bool) (os os' : List Char)
    (words : List (BitVec 16)) :
    insertGroups host before used_zeros (os ++ os') words =
      ((insertGroups host before used_zeros os' words).1,
        os ++ (insertGroups host before used_zeros os' words).2) := by
  induction words generalizing before used_zeros os' with
  | nil => rfl
  | cons addr words ih =>
    unfold insertGroups
    split
    · exact ih _ _ _
    · simp only
      split <;> split <;> simp only [List.append_assoc] <;> exact ih _ _ _

/-- The groups in brackets, and the port. -/
theorem IPv6Address.insert_eq (a : IPv6Address) (os : List Char) :
    a.insert host os = os ++ '[' :: (compressed host (wordsOf host a.addr.toList) ++
      ']' :: ':' :: decimal (a.getPort host).toNat) := by
  have happend := insertGroups_append host none false (os ++ ['[']) []
    (wordsOf host a.addr.toList)
  rw [List.append_nil] at happend
  simp only [insert, happend, compressed, getPort]
  split <;> simp

/-- The text is the groups in front of the run and those behind it, or all groups. -/
theorem compressed_cases {words : List (BitVec 16)} (h : words.length = 8) :
    (∀ addr ∈ words, addr ≠ 0) ∧ compressed host words = groupsText (words.map (group host)) ∨
      ∃ front n back, words = front ++ (List.replicate (n + 1) 0 ++ back) ∧
        compressed host words = groupsText (front.map (group host)) ++
          ':' :: ':' :: groupsText (back.map (group host)) := by
  obtain ⟨front, n, back, rfl, hfront, hback, hn⟩ := exists_run words
  cases n with
  | zero =>
    obtain rfl := hn rfl
    simp only [List.replicate_zero, List.append_nil] at h ⊢
    refine Or.inl ⟨hfront, ?_⟩
    have hloop := insertGroups_front host hfront [] []
    have hlast : front[7]? ≠ some 0 := fun hzero => hfront 0 (List.mem_of_getElem? hzero) rfl
    rw [List.append_nil, List.nil_append] at hloop
    simp only [compressed, hloop, insertGroups, hlast, and_false, if_false]
  | succ n =>
    refine Or.inr ⟨front, n, back, rfl, ?_⟩
    have hloop := insertGroups_front host hfront [] (List.replicate (n + 1) 0 ++ back)
    rw [insertGroups_zeros, List.nil_append] at hloop
    cases back with
    | nil =>
      have hlast : (front ++ (List.replicate (n + 1) 0 ++ []))[7]? = some (0 : BitVec 16) := by
        simp only [List.append_nil, List.length_append, List.length_replicate] at h ⊢
        rw [List.getElem?_append_right (by omega), List.getElem?_replicate, if_pos (by omega)]
      simp only [compressed, hloop, insertGroups, hlast, and_self, if_true]
      rfl
    | cons addr back =>
      rw [insertGroups_compress host (hback addr rfl)] at hloop
      simp only [compressed, hloop, Bool.true_eq_false, false_and, if_false]

/-- The text reads back as the groups and has at most one double colon. -/
theorem readAllGroups_compressed {words : List (BitVec 16)} (h : words.length = 8) :
    doubles (compressed host words) ≤ 1 ∧
      readAllGroups (compressed host words) = some (words.map (group host)) := by
  have hlt (l : List (BitVec 16)) : ∀ g ∈ l.map (group host), g < 65536 := by
    intro g hg
    obtain ⟨addr, -, rfl⟩ := List.mem_map.mp hg
    exact group_lt host addr
  obtain ⟨-, htext⟩ | ⟨front, n, back, rfl, htext⟩ := compressed_cases host h
  · rw [htext, (doubles_groupsText _ [] nofun).2]
    refine ⟨Nat.zero_le 1, readAllGroups_full (hlt words) ?_⟩
    rw [List.length_map, h]
  · simp only [List.length_append, List.length_replicate] at h
    rw [htext, (doubles_groupsText _ _ (head?_groupsText_ne _ []).1).1,
      (doubles_groupsText _ [] nofun).2]
    refine ⟨Nat.le_refl 1, ?_⟩
    rw [readAllGroups_double (hlt front) (hlt back) (Nat.succ_pos n)
      (by simp only [List.length_map]; omega)]
    simp

/-! ## Values -/

/-- Two bytes are loaded in one order or the other; the group has the first one on top. -/
theorem group_value (b c : UInt8) :
    group host (BitVec.ofNat 16 (host.value [b, c])) = b.toNat * 256 + c.toNat := by
  have hb := b.toNat_lt
  have hc := c.toNat_lt
  cases host with
  | little =>
    have hword : (BitVec.ofNat 16 (Endian.little.value [b, c])).toNat = natOfBytes [b, c] := by
      rw [BitVec.toNat_ofNat]
      exact Nat.mod_eq_of_lt (by simp only [Endian.value, natOfBytes]; omega)
    have hswap : byteswap 2 (natOfBytes [b, c]) = natOfBytes [c, b] :=
      congrArg (fun bytes : List UInt8 => natOfBytes bytes.reverse) (bytesLE_natOfBytes [b, c])
    rw [group, byteswapOnLittleEndian, hword, hswap, BitVec.toNat_ofNat, natOfBytes, natOfBytes,
      natOfBytes]
    omega
  | big =>
    rw [group, byteswapOnLittleEndian, Endian.value, BitVec.toNat_ofNat]
    simp only [List.reverse_cons, List.reverse_nil, List.nil_append, List.cons_append, natOfBytes]
    omega

/-- The groups make up the same number as the bytes. -/
theorem foldl_wordsOf (n : Nat) {bytes : List UInt8} (h : bytes.length = 2 * n) (v : Nat) :
    ((wordsOf host bytes).map (group host)).foldl (fun v g => v * 65536 + g) v =
      bytes.foldl (fun v b => v * 256 + b.toNat) v := by
  induction n generalizing bytes v with
  | zero =>
    obtain rfl : bytes = [] := List.length_eq_zero_iff.mp h
    rfl
  | succ n ih =>
    match bytes, h with
    | b :: c :: bytes, h =>
      rw [List.length_cons, List.length_cons] at h
      have hgroup : v * 65536 + (b.toNat * 256 + c.toNat) =
          (v * 256 + b.toNat) * 256 + c.toNat := by omega
      rw [wordsOf, List.map_cons, List.foldl_cons, group_value, ih (by omega), List.foldl_cons,
        List.foldl_cons, hgroup]

theorem length_wordsOf (n : Nat) {bytes : List UInt8} (h : bytes.length = 2 * n) :
    (wordsOf host bytes).length = n := by
  induction n generalizing bytes with
  | zero =>
    obtain rfl : bytes = [] := List.length_eq_zero_iff.mp h
    rfl
  | succ n ih =>
    match bytes, h with
    | b :: c :: bytes, h =>
      rw [List.length_cons, List.length_cons] at h
      rw [wordsOf, List.length_cons, ih (by omega)]

/-- The bytes of a number with the highest one first. -/
theorem natOfBytes_reverse (bytes : List UInt8) :
    natOfBytes bytes.reverse = bytes.foldl (fun v b => v * 256 + b.toNat) 0 := by
  have hfoldr (l : List UInt8) :
      natOfBytes l = l.foldr (fun b v => v * 256 + b.toNat) 0 := by
    induction l with
    | nil => rfl
    | cons b l ih => rw [natOfBytes, List.foldr_cons, ih, Nat.add_comm, Nat.mul_comm]
  rw [hfoldr, List.foldr_reverse]

/-- The text between the brackets denotes the address. -/
theorem IPv6Address.readIPv6_compressed (a : IPv6Address) :
    doubles (compressed host (wordsOf host a.addr.toList)) ≤ 1 ∧
      readIPv6 (compressed host (wordsOf host a.addr.toList)) = some a.value := by
  have hlength : a.addr.toList.length = 2 * 8 := a.addr.length_toList
  obtain ⟨hdoubles, hread⟩ := readAllGroups_compressed host (length_wordsOf host 8 hlength)
  refine ⟨hdoubles, ?_⟩
  rw [readIPv6, hread, Option.map_some, ofGroups, foldl_wordsOf host 8 hlength,
    ← natOfBytes_reverse, value]

theorem IPv6Address.value_inj {a b : IPv6Address} (h : a.value = b.value) : a.addr = b.addr := by
  ext k hk
  rw [UInt8.toNat_inj]
  apply UInt8.eq_of_toBitVec_eq
  refine BitVec.eq_of_getMsbD_eq fun j hj => ?_
  have hi : 8 * k + j < 128 := by omega
  have hdiv : (8 * k + j) / 8 = k := by omega
  have hmod : (8 * k + j) % 8 = j := by omega
  have hbit := congrArg (BitVec.getMsbD · (8 * k + j)) h
  simp only [getMsbD_value _ hi, hdiv, hmod] at hbit
  exact hbit

/-- The text has digits and colons only. -/
theorem notMem_compressed {words : List (BitVec 16)} (h : words.length = 8) {c : Char}
    (hdigit : 16 ≤ digitValue c) (hcolon : c ≠ ':') : c ∉ compressed host words := by
  have hgroups (gs : List Nat) : c ∉ groupsText gs := by
    have hnone (g : Nat) : c ∉ hexadecimal g := notMem_toDigits (by decide) (by decide) hdigit
    cases gs with
    | nil => exact List.not_mem_nil
    | cons g gs =>
      rw [groupsText_cons]
      simp [hnone, hcolon]
  obtain ⟨-, htext⟩ | ⟨front, n, back, -, htext⟩ := compressed_cases host h
  · rw [htext]
    exact hgroups _
  · rw [htext]
    simp [hgroups, hcolon]

/-! ## IPv4 -/

/-- The bytes of a number of 32 bits, the upper one first. -/
def bytesOf (x : BitVec 32) : List Nat :=
  [((x >>> 24) &&& 0xff#32).toNat, ((x >>> 16) &&& 0xff#32).toNat, ((x >>> 8) &&& 0xff#32).toNat,
    (x &&& 0xff#32).toNat]

/-- The bytes with dots, and the port. -/
theorem IPv4Address.insert_eq (a : IPv4Address) (os : List Char) :
    a.insert host os = os ++ (dotted (bytesOf (a.value host)) ++
      ':' :: decimal (a.getPort host).toNat) := by
  simp [insert, dotted, bytesOf, value, getPort]

theorem toNat_and_byte (x : BitVec 32) : (x &&& 0xff#32).toNat = x.toNat % 256 := by
  rw [BitVec.toNat_and]
  exact Nat.and_two_pow_sub_one_eq_mod x.toNat 8

/-- The bytes with dots are read back. -/
theorem readIPv4_bytesOf (x : BitVec 32) : readIPv4 (dotted (bytesOf x)) = some x := by
  have hx := x.isLt
  have hlt : ∀ b ∈ bytesOf x, b < 256 := by
    simp only [bytesOf, toNat_and_byte, List.forall_mem_cons]
    refine ⟨?_, ?_, ?_, ?_, nofun⟩ <;> exact Nat.mod_lt _ (by decide)
  rw [readIPv4_dotted hlt rfl]
  refine congrArg some (BitVec.eq_of_toNat_eq ?_)
  simp only [bytesOf, toNat_and_byte, List.foldl_cons, List.foldl_nil, BitVec.toNat_ofNat,
    BitVec.toNat_ushiftRight, Nat.shiftRight_eq_div_pow]
  omega

/-! ## Both -/

theorem port_inj {p q : BitVec 16} (h : decimal (byteswapOnLittleEndian host p).toNat =
    decimal (byteswapOnLittleEndian host q).toNat) : p = q :=
  swap_inj (by decide) host (BitVec.eq_of_toNat_eq (decimal_inj h))

theorem IPv6Address.toString_inj {a b : IPv6Address} (h : a.toString host = b.toString host) :
    a.addr = b.addr ∧ a.port = b.port := by
  have hout (a : IPv6Address) : ']' ∉ compressed host (wordsOf host a.addr.toList) :=
    notMem_compressed host (length_wordsOf host 8 a.addr.length_toList) (by decide) (by decide)
  have hport (a : IPv6Address) : ']' ∉ ':' :: decimal (a.getPort host).toNat := by
    simp [notMem_decimal (show 10 ≤ digitValue ']' by decide)]
  rw [toString, toString, insert_eq, insert_eq] at h
  obtain ⟨htext, -, hrest⟩ := (List.append_cons_inj_of_notMem (hout a) (hport a)).mp
    (List.cons.inj h).2
  have hvalue : some a.value = some b.value := by
    rw [← (a.readIPv6_compressed host).2, htext, (b.readIPv6_compressed host).2]
  exact ⟨value_inj (Option.some.inj hvalue), port_inj host (List.cons.inj hrest).2⟩

/-- The text has digits and dots only. -/
theorem notMem_dotted {c : Char} (hdigit : 10 ≤ digitValue c) (hdot : c ≠ '.') (x : BitVec 32) :
    c ∉ dotted (bytesOf x) := by
  simp [dotted, bytesOf, notMem_decimal hdigit, hdot]

theorem IPv4Address.toString_inj {a b : IPv4Address} (h : a.toString host = b.toString host) :
    a.addr = b.addr ∧ a.port = b.port := by
  have hout (a : IPv4Address) : ':' ∉ dotted (bytesOf (a.value host)) :=
    notMem_dotted (by decide) (by decide) _
  have hport (a : IPv4Address) : ':' ∉ decimal (a.getPort host).toNat :=
    notMem_decimal (by decide) _
  rw [toString, toString, insert_eq, insert_eq] at h
  obtain ⟨htext, -, hrest⟩ := (List.append_cons_inj_of_notMem (hout a) (hport a)).mp h
  have hvalue : some (a.value host) = some (b.value host) := by
    rw [← readIPv4_bytesOf, htext, readIPv4_bytesOf]
  exact ⟨swap_inj (by decide) host (Option.some.inj hvalue), port_inj host hrest⟩

/-- The text of an IPv4 address starts with a digit. -/
theorem toString_ne_toString (a : IPv4Address) (b : IPv6Address) :
    a.toString host ≠ b.toString host := by
  intro h
  rw [IPv4Address.toString, IPv6Address.toString, IPv4Address.insert_eq,
    IPv6Address.insert_eq] at h
  have hmem : '[' ∈ dotted (bytesOf (a.value host)) ++ ':' :: decimal (a.getPort host).toNat := by
    rw [List.nil_append] at h
    rw [h]
    exact List.mem_cons_self
  rcases List.mem_append.mp hmem with htext | hport
  · exact notMem_dotted (by decide) (by decide) _ htext
  · simp [notMem_decimal (show 10 ≤ digitValue '[' by decide)] at hport

/-- For every address: IPv6 texts have the port behind brackets with a text in them that has at
most one double colon and denotes the address, IPv4 texts have the port behind a text that denotes
the address, and different addresses or ports have different texts. -/
theorem address_text_faithful (host : Endian) :
    (∀ (a : IPv6Address) (os : List Char), ∃ text,
      a.insert host os = os ++ '[' :: (text ++ ']' :: ':' :: decimal (a.getPort host).toNat) ∧
        doubles text ≤ 1 ∧ readIPv6 text = some a.value) ∧
    (∀ (a : IPv4Address) (os : List Char), ∃ text,
      a.insert host os = os ++ (text ++ ':' :: decimal (a.getPort host).toNat) ∧
        readIPv4 text = some (a.value host)) ∧
    (∀ a b : IPv6Address, a.toString host = b.toString host → a.addr = b.addr ∧ a.port = b.port) ∧
    (∀ a b : IPv4Address, a.toString host = b.toString host → a.addr = b.addr ∧ a.port = b.port) ∧
    ∀ (a : IPv4Address) (b : IPv6Address), a.toString host ≠ b.toString host := by
  refine ⟨fun a os => ?_, fun a os => ?_, fun a b h => IPv6Address.toString_inj host h,
    fun a b h => IPv4Address.toString_inj host h, toString_ne_toString host⟩
  · exact ⟨_, a.insert_eq host os, a.readIPv6_compressed host⟩
  · exact ⟨_, a.insert_eq host os, readIPv4_bytesOf _⟩

end Xupeng
