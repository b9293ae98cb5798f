import Xupeng.Core.Numeral
import Xupeng.Core.Pointwise
import Xupeng.Models.Address.Native.Text

/-!
# Reading the text of addresses

The text of an IPv6 address has eight groups of up to four hexadecimal digits with colons
between them, or fewer groups and one double colon that stands for all missing groups, at
least one, which are zero. The text of an IPv4 address has four decimal numbers with dots
between them.
-/

namespace Xupeng

/-! ## IPv6 -/

/-- The parts before and behind the first double colon. -/
def cutDouble : List Char → Option (List Char × List Char)
  | [] => none
  | c :: rest =>
    if c = ':' ∧ rest.head? = some ':' then some ([], rest.tail)
    else (cutDouble rest).map fun (front, back) => (c :: front, back)

/-- The number of places with a double colon. -/
def doubles : List Char → Nat
  | [] => 0
  | c :: rest => doubles rest + if c = ':' ∧ rest.head? = some ':' then 1 else 0

/-- A group has one to four digits. -/
def readGroup (l : List Char) : Option Nat := if l.length ≤ 4 then readNumeral 16 l else none

/-- Groups with colons between them. -/
def readGroups (l : List Char) : Option (List Nat) :=
  if l = [] then some [] else (l.splitOn ':').mapM readGroup

/-- The eight groups of a text. -/
def readAllGroups (l : List Char) : Option (List Nat) :=
  match cutDouble l with
  | none => do
    let gs ← readGroups l
    if gs.length = 8 then some gs else none
  | some (front, back) => do
    let gs ← readGroups front
    let hs ← readGroups back
    if gs.length + hs.length < 8 then
      some (gs ++ List.replicate (8 - (gs.length + hs.length)) 0 ++ hs)
    else none

/-- The number of 128 bits with these groups. -/
def ofGroups (gs : List Nat) : BitVec 128 :=
  BitVec.ofNat 128 (gs.foldl (fun v g => v * 65536 + g) 0)

/-- The address that a text denotes. -/
def readIPv6 (l : List Char) : Option (BitVec 128) := (readAllGroups l).map ofGroups

/-- How groups are written. -/
def groupsText (gs : List Nat) : List Char := [':'].intercalate (gs.map hexadecimal)

theorem groupsText_cons_cons (g h : Nat) (gs : List Nat) :
    groupsText (g :: h :: gs) = hexadecimal g ++ ':' :: groupsText (h :: gs) := by
  simp only [groupsText, List.map_cons, List.intercalate_cons_cons, List.append_assoc,
    List.singleton_append]

theorem groupsText_singleton (g : Nat) : groupsText [g] = hexadecimal g :=
  List.intercalate_singleton

theorem groupsText_concat (gs : List Nat) (g : Nat) :
    groupsText (gs ++ [g]) =
      groupsText gs ++ (if gs = [] then [] else [':']) ++ hexadecimal g := by
  induction gs with
  | nil => exact groupsText_singleton g
  | cons h gs ih =>
    cases gs with
    | nil => simp [groupsText_cons_cons, groupsText_singleton]
    | cons h' gs =>
      rw [List.cons_append, List.cons_append, groupsText_cons_cons, groupsText_cons_cons,
        ← List.cons_append, ih]
      simp

theorem groupsText_cons (g : Nat) (gs : List Nat) :
    groupsText (g :: gs) = hexadecimal g ++ gs.flatMap fun h => ':' :: hexadecimal h := by
  induction gs generalizing g with
  | nil => simp [groupsText_singleton]
  | cons h gs ih => rw [groupsText_cons_cons, ih, List.flatMap_cons, List.cons_append]

theorem colon_notMem_hexadecimal (g : Nat) : ':' ∉ hexadecimal g :=
  notMem_toDigits (by decide) (by decide) (by decide)

/-- Groups do not start with a colon. -/
theorem head?_groupsText_ne (gs : List Nat) (rest : List Char) :
    (groupsText gs).head? ≠ some ':' ∧
      (gs ≠ [] → (groupsText gs ++ rest).head? ≠ some ':') := by
  have hdigit (g : Nat) (l : List Char) : (hexadecimal g ++ l).head? ≠ some ':' := by
    have hne : hexadecimal g ≠ [] := Nat.toDigits_ne_nil
    rw [List.head?_append_of_ne_nil _ hne]
    exact fun h => colon_notMem_hexadecimal g (List.mem_of_head? h)
  cases gs with
  | nil => exact ⟨nofun, fun h => absurd rfl h⟩
  | cons g gs =>
    cases gs with
    | nil =>
      rw [groupsText_singleton]
      refine ⟨?_, fun _ => hdigit g rest⟩
      have hself := hdigit g []
      rwa [List.append_nil] at hself
    | cons h gs =>
      rw [groupsText_cons_cons, List.append_assoc]
      exact ⟨hdigit g _, fun _ => hdigit g _⟩

/-! ## Looking for the double colon -/

section Scan

variable {l rest : List Char}

theorem cutDouble_append (h : ':' ∉ l) (rest : List Char) :
    cutDouble (l ++ rest) = (cutDouble rest).map fun (front, back) => (l ++ front, back) := by
  induction l with
  | nil => simp
  | cons c l ih =>
    have hc : c ≠ ':' := fun heq => h (heq ▸ List.mem_cons_self)
    rw [List.cons_append, cutDouble, if_neg (fun hcond => hc hcond.1),
      ih fun hmem => h (List.mem_cons_of_mem c hmem), Option.map_map]
    rfl

/-- A single colon is passed over. -/
theorem cutDouble_colon (h : rest.head? ≠ some ':') :
    cutDouble (':' :: rest) = (cutDouble rest).map fun (front, back) => (':' :: front, back) := by
  rw [cutDouble, if_neg (fun hcond => h hcond.2)]

theorem doubles_append (h : ':' ∉ l) (rest : List Char) :
    doubles (l ++ rest) = doubles rest := by
  induction l with
  | nil => rfl
  | cons c l ih =>
    have hc : c ≠ ':' := fun heq => h (heq ▸ List.mem_cons_self)
    rw [List.cons_append, doubles, if_neg (fun hcond => hc hcond.1),
      ih fun hmem => h (List.mem_cons_of_mem c hmem), Nat.add_zero]

theorem doubles_colon (h : rest.head? ≠ some ':') : doubles (':' :: rest) = doubles rest := by
  rw [doubles, if_neg (fun hcond => h hcond.2), Nat.add_zero]

end Scan

/-- Groups have no double colon. -/
theorem doubles_groupsText (gs : List Nat) (rest : List Char) (h : rest.head? ≠ some ':') :
    doubles (groupsText gs ++ ':' :: ':' :: rest) = doubles rest + 1 ∧
      doubles (groupsText gs) = 0 := by
  have hdouble : doubles (':' :: ':' :: rest) = doubles rest + 1 := by
    rw [doubles, if_pos ⟨rfl, rfl⟩, doubles_colon h]
  induction gs with
  | nil => exact ⟨hdouble, rfl⟩
  | cons g gs ih =>
    have hcolon := colon_notMem_hexadecimal g
    cases gs with
    | nil =>
      have hself := doubles_append hcolon []
      rw [List.append_nil] at hself
      rw [groupsText_singleton, doubles_append hcolon, hself]
      exact ⟨hdouble, rfl⟩
    | cons g' gs =>
      rw [groupsText_cons_cons, List.append_assoc, doubles_append hcolon, doubles_append hcolon,
        List.cons_append, doubles_colon ((head?_groupsText_ne _ _).2 (List.cons_ne_nil _ _)),
        doubles_colon (head?_groupsText_ne _ []).1]
      exact ih

/-- Groups have no two colons in a row, so the cut is behind them. -/
theorem cutDouble_groupsText (gs : List Nat) (rest : List Char) :
    cutDouble (groupsText gs ++ ':' :: ':' :: rest) = some (groupsText gs, rest) ∧
      cutDouble (groupsText gs) = none := by
  have hdouble : cutDouble (':' :: ':' :: rest) = some ([], rest) := if_pos ⟨rfl, rfl⟩
  induction gs with
  | nil => exact ⟨hdouble, rfl⟩
  | cons g gs ih =>
    have hcolon := colon_notMem_hexadecimal g
    cases gs with
    | nil =>
      have hself := cutDouble_append hcolon []
      rw [List.append_nil] at hself
      rw [groupsText_singleton, cutDouble_append hcolon, hself, hdouble]
      exact ⟨by simp, rfl⟩
    | cons g' gs =>
      rw [groupsText_cons_cons, List.append_assoc, cutDouble_append hcolon,
        cutDouble_append hcolon, List.cons_append,
        cutDouble_colon ((head?_groupsText_ne _ _).2 (List.cons_ne_nil _ _)),
        cutDouble_colon (head?_groupsText_ne _ []).1, ih.1, ih.2]
      exact ⟨rfl, rfl⟩

/-! ## Reading groups back -/

theorem readGroup_hexadecimal {g : Nat} (h : g < 65536) :
    readGroup (hexadecimal g) = some g := by
  have hlength : (hexadecimal g).length ≤ 4 :=
    (Nat.length_toDigits_le_iff (by decide) (by decide)).mpr h
  rw [readGroup, if_pos hlength]
  exact readNumeral_toDigits (by decide) (by decide) g

theorem readGroups_groupsText {gs : List Nat} (h : ∀ g ∈ gs, g < 65536) :
    readGroups (groupsText gs) = some gs := by
  by_cases hnil : gs = []
  · subst hnil
    rfl
  · have hne : groupsText gs ≠ [] := by
      obtain ⟨g, gs, rfl⟩ := List.exists_cons_of_ne_nil hnil
      have hg : hexadecimal g ≠ [] := Nat.toDigits_ne_nil
      cases gs with
      | nil => rwa [groupsText_singleton]
      | cons g' gs => simp [groupsText_cons_cons]
    have hsplit : (groupsText gs).splitOn ':' = gs.map hexadecimal := by
      refine List.splitOn_intercalate ':' (fun l hl => ?_) (by simpa using hnil)
      obtain ⟨g, -, rfl⟩ := List.mem_map.mp hl
      exact colon_notMem_hexadecimal g
    rw [readGroups, if_neg hne, hsplit]
    refine mapM_eq_some_of_forall₂ ?_
    rw [List.forall₂_map_left_iff, List.forall₂_same]
    exact fun g hg => readGroup_hexadecimal (h g hg)

/-- A text without a double colon. -/
theorem readAllGroups_full {gs : List Nat} (h : ∀ g ∈ gs, g < 65536) (hlength : gs.length = 8) :
    readAllGroups (groupsText gs) = some gs := by
  simp [readAllGroups, (cutDouble_groupsText gs []).2, readGroups_groupsText h, hlength]

/-- A text with a double colon. -/
theorem readAllGroups_double {gs hs : List Nat} (hgs : ∀ g ∈ gs, g < 65536)
    (hhs : ∀ g ∈ hs, g < 65536) {n : Nat} (hn : 0 < n) (hlength : gs.length + n + hs.length = 8) :
    readAllGroups (groupsText gs ++ ':' :: ':' :: groupsText hs) =
      some (gs ++ List.replicate n 0 ++ hs) := by
  have hlt : gs.length + hs.length < 8 := by omega
  have hzeros : 8 - (gs.length + hs.length) = n := by omega
  simp [readAllGroups, (cutDouble_groupsText gs (groupsText hs)).1, readGroups_groupsText hgs,
    readGroups_groupsText hhs, hlt, hzeros]

/-! ## IPv4 -/

/-- A number of up to 255. -/
def readByte (l : List Char) : Option Nat :=
  (readNumeral 10 l).bind fun n => if n < 256 then some n else none

/-- The address that a text denotes. -/
def readIPv4 (l : List Char) : Option (BitVec 32) := do
  let bytes ← (l.splitOn '.').mapM readByte
  if bytes.length = 4 then
    some (BitVec.ofNat 32 (bytes.foldl (fun v b => v * 256 + b) 0))
  else none

/-- How the bytes are written. -/
def dotted (bytes : List Nat) : List Char := ['.'].intercalate (bytes.map decimal)

theorem readByte_decimal {n : Nat} (h : n < 256) : readByte (decimal n) = some n := by
  rw [readByte, readNumeral_decimal, Option.bind_some, if_pos h]

/-- Four bytes with dots between them are read back, as one number. -/
theorem readIPv4_dotted {bytes : List Nat} (h : ∀ b ∈ bytes, b < 256)
    (hlength : bytes.length = 4) :
    readIPv4 (dotted bytes) =
      some (BitVec.ofNat 32 (bytes.foldl (fun v b => v * 256 + b) 0)) := by
  have hnil : bytes ≠ [] := by
    rintro rfl
    cases hlength
  have hsplit : (dotted bytes).splitOn '.' = bytes.map decimal := by
    refine List.splitOn_intercalate '.' (fun l hl => ?_) (by simpa using hnil)
    obtain ⟨b, -, rfl⟩ := List.mem_map.mp hl
    exact notMem_decimal (by decide) b
  have hread : (bytes.map decimal).mapM readByte = some bytes := by
    refine mapM_eq_some_of_forall₂ ?_
    rw [List.forall₂_map_left_iff, List.forall₂_same]
    exact fun b hb => readByte_decimal (h b hb)
  simp [readIPv4, hsplit, hread, hlength]

end Xupeng
