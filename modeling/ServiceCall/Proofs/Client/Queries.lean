import ServiceCall.Proofs.Call.Drafts
import ServiceCall.Proofs.Client.Uris

/-!
# Queries on their way

The query of a target is read as the pairs that the address had, and behind them those of the
request, whatever texts they are made of. The path is the one of the address.
-/

namespace ServiceCall

/-! ## Pairs in an address -/

namespace Url

variable {url : Url}

theorem Canonical.withPairs (h : url.Canonical) (pairs : List (String × String)) :
    (url.withPairs pairs).Canonical := by
  unfold Url.withPairs
  split
  · exact h
  · refine { h with query := ?_ }
    rintro q ⟨⟩ c hc
    rw [String.toList_ofList] at hc
    rcases mem_appendPairs hc with hmem | hform | rfl | rfl
    · cases hquery : url.query with
      | none =>
        rw [hquery] at hmem
        cases hmem
      | some q =>
        rw [hquery] at hmem
        exact h.query q hquery c hmem
    · exact isEncoded_of_formChar hform
    · exact ⟨by decide, by decide⟩
    · exact ⟨by decide, by decide⟩

theorem readForm_withPairs (url : Url) (pairs : List (String × String)) :
    readForm ((url.withPairs pairs).query.getD "").toList =
      readForm (url.query.getD "").toList ++ pairs := by
  unfold withPairs
  split
  · rename_i hempty
    rw [List.isEmpty_iff.mp hempty, List.append_nil]
  · rw [Option.getD_some, String.toList_ofList, readForm_appendPairs]

end Url

/-! ## Pairs in a target -/

namespace Client

variable {client : Client} {request : Request} {url : Url} {target : Target}

theorem canonical_of_address (h : client.address request = .ok url) (hweb : url.isWeb = true) :
    url.Canonical := by
  unfold address at h
  split at h
  · rename_i hparse
    cases h
    exact Url.canonical_of_parse hparse hweb
  · split at h
    · cases h
    · exact Url.canonical_of_parse (eq_ok_of_mapError h) hweb
  · cases h

theorem isWeb_of_target (haddress : client.address request = .ok url)
    (h : client.target request = .ok target) : url.isWeb = true := by
  have hsame : (url.withPairs request.query).isWeb = url.isWeb := by
    unfold Url.isWeb
    rw [(Url.withPairs_front url request.query).1]
  unfold Client.target at h
  rw [haddress] at h
  dsimp only [bind, Except.bind] at h
  rw [hsame] at h
  cases hweb : url.isWeb with
  | true => rfl
  | false =>
    rw [hweb] at h
    cases h

/-- A target has the parts of the address and its query with the pairs of the request. -/
theorem uri_of_target (haddress : client.address request = .ok url)
    (h : client.target request = .ok target) :
    ∃ a, url.authority = some a ∧
      target.uri = ⟨some url.scheme, some a.text, url.path, (url.withPairs request.query).query⟩ := by
  have hcanonical := canonical_of_address haddress (isWeb_of_target haddress h)
  obtain ⟨url', haddress', huri, -, -⟩ := target_ok h
  obtain rfl : url' = url := Except.ok.inj (haddress'.symm.trans haddress)
  obtain ⟨hscheme, hauthority, hpath⟩ := Url.withPairs_front url' request.query
  obtain ⟨a, ha, -⟩ := hcanonical.authority
  rw [Http.Uri.parse_text (hcanonical.withPairs _) (hauthority.trans ha)] at huri
  split at huri
  · cases huri
  · split at huri
    · rw [hscheme, hpath] at huri
      exact ⟨a, ha, (Except.ok.inj huri).symm⟩
    · cases huri

open RequestDraft

/-- The pairs of a request are read from its target in the order they were given in, behind those
that its address had. -/
theorem readForm_target {method : Http.Method} {route : String} {settings : List Setting}
    (hrequest : (drafted method route settings).build = .ok request)
    (h : client.target request = .ok target) :
    ∃ url, client.address request = .ok url ∧ target.uri.path = url.path ∧
      Url.readForm (target.uri.query.getD "").toList =
        Url.readForm (url.query.getD "").toList ++ settings.filterMap Setting.query? := by
  have hquery : request.query = settings.filterMap Setting.query? := by
    rw [eq_described_of_build hrequest, drafted_eq]
    rfl
  obtain ⟨url, haddress, -⟩ := target_ok h
  obtain ⟨a, -, huri⟩ := uri_of_target haddress h
  refine ⟨url, haddress, ?_, ?_⟩
  · rw [huri]
  · rw [huri, ← hquery]
    exact Url.readForm_withPairs url request.query

/-- The query ends in a separator, there is a fragment, and the pairs have separators in them. -/
theorem readForm_target_of_odd :
    let settings : List Setting := [.query "a&=" "+ %#?é", .timeout (.ofSecs 1), .query "" "",
      .query "a&=" "%41"]
    ∃ client request target, Settings.standard.build = .ok client ∧
      (drafted .get "https://svc.test/a/?x=1&&=%2B&#top" settings).build = .ok request ∧
        client.target request = .ok target ∧ target.uri.path = "/a/" ∧
          target.uri.query = some
            "x=1&&=%2B&&a%26%3D=%2B+%25%23%3F%C3%A9&=&a%26%3D=%2541" ∧
          Url.readForm (target.uri.query.getD "").toList =
            [("x", "1"), ("", "+"), ("a&=", "+ %#?é"), ("", ""), ("a&=", "%41")] := by
  intro settings
  have hrun : (do
      let client ← Settings.standard.build
      let request ← (drafted .get "https://svc.test/a/?x=1&&=%2B&#top" settings).build
      let url ← client.address request
      let target ← client.target request
      return (url, target.uri.query) : Except CallError _).toOption =
        some (⟨"https", some ⟨"", "", .name "svc.test", none⟩, "/a/", some "x=1&&=%2B&",
          some "top"⟩, some "x=1&&=%2B&&a%26%3D=%2B+%25%23%3F%C3%A9&=&a%26%3D=%2541") := by
    decide +kernel
  obtain ⟨client, hclient, hrun⟩ := exists_of_bind_ok (eq_ok_of_toOption hrun)
  obtain ⟨request, hrequest, hrun⟩ := exists_of_bind_ok hrun
  obtain ⟨url, hurl, hrun⟩ := exists_of_bind_ok hrun
  obtain ⟨target, htarget, hrun⟩ := exists_of_bind_ok hrun
  obtain ⟨rfl, hquery⟩ := Prod.mk.inj (Except.ok.inj hrun)
  obtain ⟨url', haddress, hpath, hread⟩ := readForm_target hrequest htarget
  obtain rfl : url' = _ := Except.ok.inj (haddress.symm.trans hurl)
  have hbefore : Url.readForm "x=1&&=%2B&".toList = [("x", "1"), ("", "+")] := by decide +kernel
  refine ⟨client, request, target, hclient, hrequest, htarget, hpath, hquery, ?_⟩
  rw [hread]
  exact congrArg (· ++ settings.filterMap Setting.query?) hbefore

end Client

end ServiceCall
