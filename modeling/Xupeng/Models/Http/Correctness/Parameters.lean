import Xupeng.Models.Http.Interpretation.Segments

/-!
# Parsing of parameters

The parser keeps what is there and inserts what the scanner takes, the first of several equal
keys. These are the pairs of the segments unless a segment without `=` stands in front of one
with `=`: then its text gets into the next key.
-/

namespace Xupeng.Http

/-- Every pair is added under its key with the decoded value, unless there is an entry for the key
or an earlier pair. -/
def Adds (u : StringUtil) (m : MapType) (pairs : List (List Char × List Char)) (m' : MapType) :
    Prop :=
  ∀ k, m'.find k =
    (m.find k).or (Dictionary.first caseKey (pairs.map fun p => (p.1, u.urlDecode p.2)) k)

/-- What `initQueryParam` adds to the parameters of a request that is not parsed yet. -/
def QueryAdds (u : StringUtil) (q : List Char) (pairs : List (List Char × List Char)) : Prop :=
  ∀ r : HttpRequest, r.query = q → r.parserParamFlag &&& 0x1 = 0 →
    Adds u r.params pairs (r.initQueryParam u).params

/-- The pairs that are scanned are inserted, with their values decoded. -/
theorem params_initQueryParam (u : StringUtil) {r : HttpRequest}
    (h : r.parserParamFlag &&& 0x1 = 0) : (r.initQueryParam u).params =
      r.params.insertAll ((scannedPairs '&' r.query).map fun p => (p.1, u.urlDecode p.2)) := by
  rw [HttpRequest.initQueryParam, if_neg (fun hne => hne h),
    parseParam_eq u (by decide) id r.query 0 r.params, List.drop_zero]
  rfl

/-- They are what the query adds. -/
theorem queryAdds_scannedPairs (u : StringUtil) (q : List Char) :
    QueryAdds u q (scannedPairs '&' q) := by
  rintro r rfl hflag k
  rw [params_initQueryParam u hflag, Dictionary.find_insertAll]

/-- A key with a separator is not one of a segment, whatever is decoded. -/
theorem pairsFirst_of_queryAdds {u : StringUtil} {q : List Char} (hq : '\x00' ∉ q)
    (h : QueryAdds u q (segmentPairs '&' q)) : PairsFirst '&' q := by
  by_contra hnot
  obtain ⟨p, hp, hflag⟩ := exists_scanned_of_not_pairsFirst hnot
  let r : HttpRequest := { HttpRequest.new with query := q }
  have hfresh : r.parserParamFlag &&& 0x1 = 0 := BitVec.zero_and
  have hfound := (queryAdds_scannedPairs u q r rfl hfresh p.1).symm.trans (h r rfl hfresh p.1)
  rw [show r.params.find p.1 = none from rfl, Option.none_or, Option.none_or] at hfound
  have hsome : (Dictionary.first caseKey
      ((scannedPairs '&' q).map fun p => (p.1, u.urlDecode p.2)) p.1).isSome :=
    Dictionary.first_isSome_iff.mpr ⟨_, List.mem_map_of_mem hp, rfl⟩
  rw [hfound] at hsome
  obtain ⟨e, he, hkey⟩ := Dictionary.first_isSome_iff.mp hsome
  obtain ⟨s, hs, rfl⟩ := List.mem_map.mp he
  obtain ⟨hsflag, hsub⟩ := of_mem_segmentPairs hs
  rw [caseKey_of_notMem fun hmem => hq (hsub hmem),
    caseKey_of_notMem (notMem_of_mem_scannedPairs (by decide) hq hp)] at hkey
  refine hsflag ((mem_foldCase_iff (by decide)).mp ?_)
  rw [hkey]
  exact (mem_foldCase_iff (by decide)).mpr hflag

/-- `initQueryParam` keeps the entries that are there and takes the first of several keys that are
equal up to case. It adds the pairs of the segments if no segment without `=` stands in front of
one with `=`, and for a query without NUL only then. -/
theorem query_parsed_iff (u : StringUtil) (q : List Char) :
    QueryAdds u q (scannedPairs '&' q) ∧
      (PairsFirst '&' q → QueryAdds u q (segmentPairs '&' q)) ∧
      ('\x00' ∉ q → QueryAdds u q (segmentPairs '&' q) → PairsFirst '&' q) := by
  refine ⟨queryAdds_scannedPairs u q, fun h => ?_, pairsFirst_of_queryAdds⟩
  rw [← scannedPairs_of_pairsFirst h]
  exact queryAdds_scannedPairs u q

/-- Two pairs and a segment without `=` behind them, and a segment without `=` in front. With a NUL
the wrong key can be hidden: here it is equal to an earlier one. -/
theorem query_parsed_examples :
    QueryAdds ⟨id, id⟩ "a=1&b=2&c".toList (segmentPairs '&' "a=1&b=2&c".toList) ∧
      ¬ QueryAdds ⟨id, id⟩ "a&b=1".toList (segmentPairs '&' "a&b=1".toList) ∧
      (QueryAdds ⟨id, id⟩ "\x00=1&\x00&\x00=2".toList
          (segmentPairs '&' "\x00=1&\x00&\x00=2".toList) ∧
        ¬ PairsFirst '&' "\x00=1&\x00&\x00=2".toList) := by
  have hfirst {q : List Char} := query_parsed_iff ⟨id, id⟩ q
  refine ⟨hfirst.2.1 (by decide), fun h => ?_, ?_, by decide⟩
  · exact absurd (hfirst.2.2 (by decide) h) (by decide)
  · have hscanned : scannedPairs '&' "\x00=1&\x00&\x00=2".toList =
        [("\x00".toList, "1".toList), ("\x00&\x00".toList, "2".toList)] := by decide
    have hsegments : segmentPairs '&' "\x00=1&\x00&\x00=2".toList =
        [("\x00".toList, "1".toList), ("\x00".toList, "2".toList)] := by decide
    have hkeys : caseKey "\x00&\x00".toList = caseKey "\x00".toList := by decide
    intro r hquery hflag k
    rw [hfirst.1 r hquery hflag k, hscanned, hsegments]
    congr 1
    by_cases hk : caseKey "\x00".toList = caseKey k
    · simp only [Dictionary.first, List.map_cons, List.find?_cons, hk, decide_true]
    · simp only [Dictionary.first, List.map_cons, List.find?_cons, hkeys, hk, decide_false]

/-- The segment `a` gets into the key `b`. -/
theorem query_key_merged :
    segmentPairs '&' "a&b=1".toList = [("b".toList, "1".toList)] ∧
      (({ HttpRequest.new with query := "a&b=1".toList }).initQueryParam ⟨id, id⟩).params.entries =
        [("a&b".toList, "1".toList)] := by
  refine ⟨by decide, ?_⟩
  rw [params_initQueryParam _ BitVec.zero_and]
  rfl

end Xupeng.Http
