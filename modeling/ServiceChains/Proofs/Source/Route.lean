import ServiceChains.Analysis
import ServiceChains.Proofs.Artifact
import ServiceChains.Proofs.Matching
import ServiceChains.Proofs.Text.Cursor

/-!
# Declared routes can be called

The path of a mapping annotation stands between quotes, so no template that comes from a source has
one. Templates have no slash at their ends and no open placeholder. Hence a call to the service with
the verb of a declared route and with its template, filled or not, reaches an endpoint under every
policy.
-/
namespace ServiceChains.Source

open Text Template Cursor
open Endpoint (template_of_declare closed_template)

section Quotes

theorem quote_notMem_quotedPath {c d : Cursor} {path : List Char}
    (h : quotedPath c = some (path, d)) : '"' ∉ path := by
  simp only [quotedPath, Option.bind_eq_bind, Option.bind_eq_some_iff] at h
  obtain ⟨_, _, hclosed⟩ := h
  exact (passes_of_upTo hclosed).1

theorem quote_notMem_pathArgument {c d : Cursor} {path : List Char}
    (h : pathArgument c = some (path, d)) : '"' ∉ path := by
  simp only [pathArgument, Option.bind_eq_bind, Option.orElse_eq_orElse] at h
  cases hleading : (if c.offset = 0 then quotedPath (c.skipWhile isBlank) else none) with
  | some result =>
    rw [hleading, Option.orElse_some] at h
    cases h
    split_ifs at hleading
    exact quote_notMem_quotedPath hleading
  | none =>
    rw [hleading, Option.orElse_none] at h
    split_ifs at h
    · cases h
    · simp only [Option.bind_eq_some_iff] at h
      obtain ⟨_, _, _, _, hquoted⟩ := h
      exact quote_notMem_quotedPath hquoted

theorem quote_notMem_path (m : Mapping) : '"' ∉ m.path := by
  intro hmem
  have hinside := mem_of_mem_stripWhile hmem
  cases hpath : m.arguments.bind (first? pathArgument) with
  | none => simp [hpath] at hinside
  | some path =>
    rw [hpath, Option.getD_some] at hinside
    obtain ⟨arguments, _, hfirst⟩ := Option.bind_eq_some_iff.mp hpath
    obtain ⟨c, d, hread⟩ := exists_read_of_first? hfirst
    exact quote_notMem_pathArgument hread hinside

theorem quote_notMem_joinFragments {base fragment : List Char} (hbase : '"' ∉ base)
    (hfragment : '"' ∉ fragment) : '"' ∉ joinFragments base fragment := by
  unfold joinFragments
  split_ifs
  · exact hfragment
  · exact hbase
  · simp [hbase, hfragment]

/-- No path that a source declares has a quote. -/
theorem quote_notMem_declared {fileName : String} {source : List Char} {d : Declaration}
    (h : d ∈ declarations fileName source) : '"' ∉ d.path.toList := by
  have hbase (code : List Char) : '"' ∉ ((typeMapping? code).map (·.value.path)).getD [] := by
    cases typeMapping? code with
    | none => exact List.not_mem_nil
    | some type => exact quote_notMem_path type.value
  simp only [declarations, List.mem_filterMap] at h
  obtain ⟨m, _, hd⟩ := h
  split_ifs at hd
  split at hd
  · cases hd
    rw [String.toList_ofList]
    exact quote_notMem_joinFragments (hbase _) (quote_notMem_path m.value)
  · cases hd

end Quotes

theorem exists_declaration_of_mem_declareAll {ds : List Declaration} {e : Endpoint}
    (h : e ∈ (declareAll ds).1) :
    ∃ d ∈ ds, Endpoint.declare d.unit d.method d.path d.verb = .ok e := by
  induction ds with
  | nil => cases h
  | cons d ds ih =>
    simp only [declareAll] at h
    split at h
    · rename_i e' hdeclared
      rcases List.mem_cons.mp h with rfl | hlater
      · exact ⟨d, by simp, hdeclared⟩
      · obtain ⟨d', hd', hdeclared'⟩ := ih hlater
        exact ⟨d', by simp [hd'], hdeclared'⟩
    · obtain ⟨d', hd', hdeclared'⟩ := ih h
      exact ⟨d', by simp [hd'], hdeclared'⟩

/-- The endpoints that several source files declare, each given by its name and its text, in the
order of the files. -/
def routes (suffix : String) (units : List (String × List Char)) : List Endpoint :=
  units.flatMap fun unit => (endpoints suffix unit.1 unit.2).1

section Routes

variable {suffix : String} {units : List (String × List Char)} {e : Endpoint}

theorem exists_path_of_mem_routes (h : e ∈ routes suffix units) :
    ∃ path : List Char, '"' ∉ path ∧ e.template.toList = trimSlashes path := by
  obtain ⟨⟨fileName, source⟩, _, he⟩ := List.mem_flatMap.mp h
  simp only [endpoints] at he
  split_ifs at he
  · obtain ⟨d, hd, hdeclared⟩ := exists_declaration_of_mem_declareAll he
    refine ⟨d.path.toList, quote_notMem_declared hd, ?_⟩
    rw [template_of_declare hdeclared, withoutOuterSlashes, String.toList_ofList]
  · cases he

theorem quote_notMem_template (h : e ∈ routes suffix units) : '"' ∉ e.template.toList := by
  obtain ⟨path, hquote, htemplate⟩ := exists_path_of_mem_routes h
  rw [htemplate]
  exact fun hmem => hquote (mem_of_mem_stripWhile hmem)

theorem stripped_template (h : e ∈ routes suffix units) :
    Stripped (· == '/') e.template.toList := by
  obtain ⟨path, _, htemplate⟩ := exists_path_of_mem_routes h
  rw [htemplate]
  exact stripped_stripWhile _ path

end Routes

/-- A value that a call may have for a placeholder. -/
def IsCallValue (value : List Char) : Prop :=
  value ≠ [] ∧ '/' ∉ value ∧ '"' ∉ value

theorem filled_of_callValues {template path : List Char} (h : Filled IsCallValue template path) :
    Filled IsSegment template path := by
  induction h with
  | done => exact .done
  | literal hc _ ih => exact .literal hc ih
  | placeholder hname hvalue _ ih => exact .placeholder hname ⟨hvalue.1, hvalue.2.1⟩ ih

theorem quote_notMem_filled {template path : List Char} (h : Filled IsCallValue template path)
    (htemplate : '"' ∉ template) : '"' ∉ path := by
  induction h with
  | done => exact htemplate
  | literal _ _ ih =>
    rw [List.mem_cons, not_or] at htemplate ⊢
    exact ⟨htemplate.1, ih htemplate.2⟩
  | placeholder _ hvalue _ ih =>
    simp only [List.mem_cons, List.mem_append, not_or] at htemplate
    rw [List.mem_append, not_or]
    exact ⟨hvalue.2.2, ih htemplate.2.2.2⟩

/-- The path of a call to a route: its template, filled or not, with or without a slash at either
end. -/
def IsCallPath (template path : List Char) : Prop :=
  ∃ lead inside trail, path = lead ++ (inside ++ trail) ∧ IsOptionalSlash lead ∧
    IsOptionalSlash trail ∧ (inside = template ∨ Filled IsCallValue template inside)

/-- A declared route is reached by the calls that its template describes. -/
theorem satisfies_of_isCallPath {suffix : String} {units : List (String × List Char)} {e : Endpoint}
    (h : e ∈ routes suffix units) {path : String}
    (hpath : IsCallPath e.template.toList path.toList) : e.satisfies path e.verb = true := by
  obtain ⟨lead, inside, trail, heq, hlead, htrail, hinside⟩ := hpath
  have hslash {cs : List Char} (hcs : IsOptionalSlash cs) : '"' ∉ cs := by
    rcases hcs with rfl | rfl <;> simp
  have hquotes : '"' ∉ path.toList := by
    have hbetween : '"' ∉ inside := by
      rcases hinside with rfl | hfilled
      · exact quote_notMem_template h
      · exact quote_notMem_filled hfilled (quote_notMem_template h)
    simp [heq, hslash hlead, hslash htrail, hbetween]
  rcases hinside with rfl | hfilled
  · exact e.satisfies_template (stripped_template h) hlead htrail heq hquotes
  · exact e.satisfies_filled (filled_of_callValues hfilled) hlead htrail heq hquotes

/-- The name and the text of a source file, if it can be read. -/
def unit? (f : SourceFile) : Option (String × List Char) :=
  f.read.toOption.map fun text => (f.name, text.toList)

/-- A scan of files collects the routes of those that can be read. -/
theorem endpoints_scanService (s : ScanSettings) (files : List SourceFile) :
    (Analysis.scanService s files).endpoints =
      routes s.effectiveEndpointFileSuffix (files.filterMap unit?) := by
  have hfold (scan : ServiceScan) : (files.foldl (Analysis.addFile s) scan).endpoints =
      scan.endpoints ++ routes s.effectiveEndpointFileSuffix (files.filterMap unit?) := by
    induction files generalizing scan with
    | nil => simp [routes]
    | cons f files ih =>
      rw [List.foldl_cons, ih]
      cases hread : f.read <;> simp [Analysis.addFile, unit?, hread, Except.toOption, routes]
  exact hfold {}

/-- Every route that sources declare for a service can be called. Its template has neither a slash at
its ends nor a quote nor an open placeholder. A call to the service with its verb, and with its
template or with what its template is filled to, is resolved under every policy, and under the policy
that takes the first endpoint to one that stands no later. -/
theorem declared_routes_resolve (suffix : String) (units : List (String × List Char))
    (catalog : Catalog) (service : String)
    (hservice : catalog.endpoints service = routes suffix units)
    (i : Nat) (e : Endpoint) (he : (catalog.endpoints service)[i]? = some e) :
    (e.template.toList.head? ≠ some '/' ∧ e.template.toList.getLast? ≠ some '/' ∧
      '"' ∉ e.template.toList ∧ Closed e.template.toList) ∧
    ∀ site : CallSite, site.target = service → site.verb = e.verb →
      IsCallPath e.template.toList site.endpoint.toList →
      (∀ policy, ∃ e' ∈ catalog.endpoints service, catalog.match? policy site = some e') ∧
      ∃ j ≤ i, ∃ e', (catalog.endpoints service)[j]? = some e' ∧
        catalog.match? .first site = some e' := by
  have hmem := List.mem_of_getElem? he
  have hroute := hservice ▸ hmem
  have hstripped := stripped_template hroute
  refine ⟨⟨?_, ?_, quote_notMem_template hroute, closed_template e⟩, ?_⟩
  · intro hhead
    simpa using hstripped.head '/' hhead
  · intro hlast
    simpa using hstripped.last '/' hlast
  · rintro site rfl hverb hpath
    have hreached : e.satisfies site.endpoint site.verb = true := by
      rw [hverb]
      exact satisfies_of_isCallPath hroute hpath
    exact ⟨catalog.exists_match?_of_satisfies hmem hreached, catalog.match?_first_le he hreached⟩

/-- A source with one route, whose placeholder has a slash in it. -/
def orderSource : String :=
  "@RequestMapping(\"/orders/\") class Orders \x7b" ++
    "@GetMapping(\"/\x7bid:[0-9/]+\x7d/\") public String show() \x7b\x7d \x7d"

/-- The file with this source. -/
def orderFile : SourceFile :=
  ⟨"shop", ["OrderController.java"], orderSource.toUTF8⟩

/-- The catalog of a service with this file. -/
def orderCatalog : Catalog :=
  ⟨[("shop", (Analysis.scanService {} [orderFile]).endpoints)]⟩

/-- The route of the source. -/
def orderRoute : Endpoint :=
  ⟨"OrderController", "show", "orders/\x7bid:[0-9/]+\x7d", .get,
    .slash :: ("orders/".toList.map .one ++ [.segment, .slash]), by decide +kernel⟩

theorem declared_routes_resolve_order :
    orderCatalog.endpoints "shop" = [orderRoute] ∧
      IsCallPath orderRoute.template.toList "/orders/17/".toList ∧
      orderCatalog.match? .first ⟨"web", "Cart.pay", "shop", "/orders/17/", .get⟩ =
        some orderRoute := by
  have hunit : unit? orderFile = some ("OrderController.java", orderSource.toList) := by
    simp only [unit?, SourceFile.read, orderFile, Text.fromUTF8?_toUTF8]
    rfl
  have hservice : orderCatalog.endpoints "shop" =
      routes "Controller.java" [("OrderController.java", orderSource.toList)] := by
    have hscan := endpoints_scanService {} [orderFile]
    rw [List.filterMap_cons_some hunit] at hscan
    exact hscan
  have hroutes : orderCatalog.endpoints "shop" = [orderRoute] := by
    rw [hservice]
    rfl
  have hcall : IsCallPath orderRoute.template.toList "/orders/17/".toList := by
    have hfilled : Filled IsCallValue "\x7bid:[0-9/]+\x7d".toList "17".toList :=
      @Filled.placeholder _ "id:[0-9/]+".toList "17".toList [] [] (by decide)
        ⟨by decide, by decide, by decide⟩ .done
    refine ⟨['/'], "orders/17".toList, ['/'], by decide, .inr rfl, .inr rfl, .inr ?_⟩
    iterate 7 apply Filled.literal (by decide)
    exact hfilled
  obtain ⟨j, hj, e, he, hmatch⟩ := ((declared_routes_resolve _ _ orderCatalog "shop" hservice 0
    orderRoute (by rw [hroutes]; rfl)).2 ⟨"web", "Cart.pay", "shop", "/orders/17/", .get⟩ rfl rfl
    hcall).2
  obtain rfl : j = 0 := by omega
  rw [hroutes] at he
  cases he
  exact ⟨hroutes, hcall, hmatch⟩

end ServiceChains.Source
