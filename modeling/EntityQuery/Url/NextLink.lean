import EntityQuery.Url.Reader

/-!
# Next links

A page of results names the page after it by a link, and the link may be relative to the URL that the
page was requested from.  That URL in turn may be relative itself, when the base is known to the
transport only.  `Url.nextLink` resolves a link so that the result can be requested in the place of
the earlier URL:

* an absolute link is taken as it stands, not even normalised;
* against an absolute request URL a link resolves as any reference does;
* against a relative request URL both are resolved on a stand-in host, and what is behind the host is
  the result.  It begins with a slash exactly when the request URL did.  A link that names another
  host leaves the stand-in, and then the whole URL is the result.
-/

set_option autoImplicit false

namespace EntityQuery.Url

/-- The host that stands in for an unknown one. -/
def standIn : Url :=
  ⟨"http".toList, some ⟨[], .name "relative.invalid".toList, none⟩, .segments [[]], none, none⟩

/-- A resolved link without the stand-in. -/
def withoutStandIn (request : String) (resolved : Url) : String :=
  if resolved.sameOrigin standIn then
    match request.toList with
    | '/' :: _ => String.ofList resolved.referenceText
    | _ => String.ofList (resolved.referenceText.dropWhile (· == '/'))
  else resolved.text

/-- The URL of the next page, from the URL of a page and the link it carries. -/
def nextLink (request link : String) : Except UrlFault String :=
  match ofText link with
  | .ok _ => .ok link
  | .error .relativeWithoutBase =>
    match ofText request with
    | .ok base => (join base link).map text
    | .error .relativeWithoutBase => do
      let base ← join standIn request
      let resolved ← join base link
      .ok (withoutStandIn request resolved)
    | .error fault => .error fault
  | .error fault => .error fault

end EntityQuery.Url
