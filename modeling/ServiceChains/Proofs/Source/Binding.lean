import ServiceChains.Proofs.Source.Client

/-!
# Variables that hold addresses

A source may bind a variable several times, each time to the address of some service. The bindings
keep one entry for each variable: in the place of its first binding, with the service of its last one.
An address expression is resolved by the first entry whose name begins it, and by the request in the
expression itself if there is none. Names are words, so an entry begins the expression exactly if it
begins its leading word. The leading word may be a variable of its own and still be passed over: that
happens where a variable whose name is a beginning of it is bound earlier.
-/
namespace ServiceChains.Source

open Text Cursor

/-- The bindings of a source in order, one for each time that a variable is bound. -/
def assignments (source : List Char) : List (String × String) :=
  (scan addressBinding source).map Found.value

/-- The service of the last binding of a variable. -/
def lastService? (assigned : List (String × String)) (name : String) : Option String :=
  (assigned.reverse.find? (·.1 == name)).map (·.2)

/-- Of the variables whose names begin a word, the one that is bound first. -/
def firstBeginning? (assigned : List (String × String)) (word : String) : Option String :=
  (assigned.map (·.1)).find? (·.toList.isPrefixOf word.toList)

/-- The word that an address expression begins with; empty if it begins with none. -/
def leadingWord (address : List Char) : String :=
  String.ofList (address.takeWhile isWord)

/-- Somewhere in the expression the address of the service is asked for. -/
def Requests (address : List Char) (service : String) : Prop :=
  ∃ before after, address =
    before ++ ("getServiceUrl(\"".toList ++ (service.toList ++ ("\")".toList ++ after))) ∧
    service.toList ≠ [] ∧ '"' ∉ service.toList

section Entries

theorem bindings_eq (source : List Char) :
    bindings source = (assignments source).foldl bindVariable [] := rfl

theorem any_name_eq_iff {bound : List (String × String)} {name : String} :
    bound.any (·.1 == name) = true ↔ name ∈ bound.map (·.1) := by
  simp only [List.any_eq_true, List.mem_map, beq_iff_eq]

theorem map_fst_bindVariable (bound : List (String × String)) (new : String × String) :
    (bindVariable bound new).map (·.1) =
      if new.1 ∈ bound.map (·.1) then bound.map (·.1) else bound.map (·.1) ++ [new.1] := by
  unfold bindVariable
  by_cases hmem : new.1 ∈ bound.map (·.1)
  · rw [if_pos (any_name_eq_iff.mpr hmem), if_pos hmem, List.map_map]
    apply List.map_congr_left
    intro old _
    simp only [Function.comp_apply]
    split_ifs with hsame
    · exact (beq_iff_eq.mp hsame).symm
    · rfl
  · rw [if_neg (fun h => hmem (any_name_eq_iff.mp h)), if_neg hmem, List.map_append]
    rfl

/-- After a binding an entry is the new one, or an old one of another variable. -/
theorem mem_bindVariable {bound : List (String × String)} {new entry : String × String}
    (h : entry ∈ bindVariable bound new) : entry = new ∨ entry ∈ bound ∧ entry.1 ≠ new.1 := by
  unfold bindVariable at h
  split_ifs at h with hany
  · obtain ⟨old, hold, hentry⟩ := List.mem_map.mp h
    split_ifs at hentry with hsame
    · exact .inl hentry.symm
    · subst hentry
      exact .inr ⟨hold, fun heq => hsame (beq_iff_eq.mpr heq)⟩
  · rcases List.mem_append.mp h with hold | hnew
    · refine .inr ⟨hold, fun heq => hany ?_⟩
      exact any_name_eq_iff.mpr (heq ▸ List.mem_map_of_mem hold)
    · exact .inl (List.mem_singleton.mp hnew)

/-- The entries stand in the order in which their variables are bound first. -/
theorem find?_names_foldl (p : String → Bool) (assigned : List (String × String)) :
    ((assigned.foldl bindVariable []).map (·.1)).find? p = (assigned.map (·.1)).find? p := by
  induction assigned using List.reverseRecOn with
  | nil => rfl
  | append_singleton assigned new ih =>
    rw [List.foldl_append, List.foldl_cons, List.foldl_nil, map_fst_bindVariable, List.map_append,
      List.find?_append, ← ih]
    split_ifs with hmem
    · -- The variable has an entry already, so it does not matter that it is bound again.
      cases hfind : ((assigned.foldl bindVariable []).map (·.1)).find? p with
      | some name => rfl
      | none =>
        have hnot := List.find?_eq_none.mp hfind new.1 hmem
        simp [hnot]
    · rw [List.find?_append]
      rfl

theorem lastService?_concat (assigned : List (String × String)) (new : String × String)
    (name : String) :
    lastService? (assigned ++ [new]) name =
      if new.1 = name then some new.2 else lastService? assigned name := by
  unfold lastService?
  split_ifs with hsame <;> simp [hsame]

/-- An entry has the service of the last binding of its variable. -/
theorem lastService?_of_mem_foldl {assigned : List (String × String)} {name service : String}
    (h : (name, service) ∈ assigned.foldl bindVariable []) :
    lastService? assigned name = some service := by
  induction assigned using List.reverseRecOn with
  | nil => cases h
  | append_singleton assigned new ih =>
    rw [List.foldl_append, List.foldl_cons, List.foldl_nil] at h
    rw [lastService?_concat]
    rcases mem_bindVariable h with rfl | ⟨hold, hother⟩
    · rw [if_pos rfl]
    · rw [if_neg (Ne.symm hother), ih hold]

end Entries

section Names

variable {c d : Cursor}

theorem isWord_of_addressBinding {value : String × String}
    (h : addressBinding c = some (value, d)) : ∀ x ∈ value.1.toList, isWord x = true := by
  unfold addressBinding at h
  split_ifs at h
  · cases h
  · simp only [Option.bind_eq_bind, Option.bind_eq_some_iff] at h
    obtain ⟨⟨name, _⟩, hname, _, _, ⟨_, _⟩, _, hpure⟩ := h
    cases hpure
    obtain ⟨rfl, -, -⟩ := run1_eq_some_iff.mp hname
    intro x hx
    rw [String.toList_ofList] at hx
    exact List.mem_takeWhile_imp hx

/-- The names of variables are words. -/
theorem isWord_of_mem_assignments {source : List Char} {name : String}
    (h : name ∈ (assignments source).map (·.1)) : ∀ x ∈ name.toList, isWord x = true := by
  obtain ⟨value, hvalue, rfl⟩ := List.mem_map.mp h
  obtain ⟨f, hf, rfl⟩ := List.mem_map.mp hvalue
  obtain ⟨_, _, _, hfound⟩ := foundAt_of_mem_scan hf
  exact isWord_of_addressBinding hfound.read_eq

/-- A word begins a text if it begins the leading word of it. -/
theorem isPrefixOf_leadingWord {name : String} (h : ∀ x ∈ name.toList, isWord x = true)
    (address : List Char) :
    name.toList.isPrefixOf (leadingWord address).toList = name.toList.isPrefixOf address := by
  rw [leadingWord, String.toList_ofList, Bool.eq_iff_iff, List.isPrefixOf_iff_prefix,
    List.isPrefixOf_iff_prefix]
  constructor
  · exact fun hprefix => hprefix.trans (List.takeWhile_prefix isWord)
  · rintro ⟨rest, rfl⟩
    rw [List.takeWhile_append_of_pos h]
    exact List.prefix_append _ _

theorem passes_of_serviceAddress {service : List Char} (h : serviceAddress c = some (service, d)) :
    service ≠ [] ∧ '"' ∉ service ∧
      c.Passes ("getServiceUrl(\"".toList ++ (service ++ "\")".toList)) d := by
  simp only [serviceAddress, Option.bind_eq_bind, Option.bind_eq_some_iff, char_eq_some_iff,
    text_eq_some_iff] at h
  obtain ⟨c₁, hopen, ⟨name, c₂⟩, hname, c₃, hclose, hpure⟩ := h
  cases hpure
  obtain ⟨hne, hquote, hpass⟩ := passes_of_upTo1 hname
  refine ⟨hne, hquote, hopen.trans ?_⟩
  simpa using hpass.trans hclose

/-- The first request in an expression is one that stands in it. -/
theorem requests_of_first? {address service : List Char}
    (h : first? serviceAddress address = some service) :
    Requests address (String.ofList service) := by
  obtain ⟨before, rest, after, rfl, hread⟩ := exists_place_of_first? h
  obtain ⟨hne, hquote, hpass⟩ := passes_of_serviceAddress hread
  have hrest : rest = "getServiceUrl(\"".toList ++ (service ++ "\")".toList) ++ after.rest :=
    hpass.rest_eq
  rw [hrest]
  exact ⟨before, after.rest, by simp, by simpa using hne, by simpa using hquote⟩

end Names

section Targets

/-- Where a call with an address expression goes: to the service that the first bound of all variables
that begin the leading word is bound to last, and without such a variable to one that the expression
asks for. -/
inductive IsTarget (assigned : List (String × String)) (address : List Char) : String → Prop where
  | bound {name target : String}
    (hfirst : firstBeginning? assigned (leadingWord address) = some name)
    (hlast : lastService? assigned name = some target) : IsTarget assigned address target
  | requested {target : String} (hnone : firstBeginning? assigned (leadingWord address) = none)
    (hrequest : Requests address target) : IsTarget assigned address target

/-- The target is the service that the leading word itself is bound to last, and one that the
expression asks for if the leading word is not bound. -/
structure IsOwnTarget (assigned : List (String × String)) (address : List Char) (target : String) :
    Prop where
  bound : ∀ service, lastService? assigned (leadingWord address) = some service → target = service
  requested : lastService? assigned (leadingWord address) = none → Requests address target

theorem isTarget_of_resolve? {source address : List Char} {target endpoint : String}
    (h : resolve? (bindings source) address = some (target, endpoint)) :
    IsTarget (assignments source) address target := by
  -- The first entry that begins the expression is that of the first variable that does.
  have hfirst : firstBeginning? (assignments source) (leadingWord address) =
      ((bindings source).find? (·.1.toList.isPrefixOf address)).map (·.1) := by
    have hword : firstBeginning? (assignments source) (leadingWord address) =
        ((assignments source).map (·.1)).find? (·.toList.isPrefixOf address) :=
      List.find?_congr fun name hname =>
        isPrefixOf_leadingWord (isWord_of_mem_assignments hname) address
    rw [hword, ← find?_names_foldl, ← bindings_eq, List.find?_map]
    rfl
  unfold resolve? at h
  split at h
  · rename_i name service hfind
    cases h
    rw [hfind] at hfirst
    exact .bound hfirst (lastService?_of_mem_foldl (List.mem_of_find?_eq_some hfind))
  · rename_i hfind
    rw [hfind] at hfirst
    obtain ⟨service, hservice, hpair⟩ := Option.map_eq_some_iff.mp h
    cases hpair
    exact .requested hfirst (requests_of_first? hservice)

/-- A word that is bound begins itself. -/
theorem lastService?_of_firstBeginning? {assigned : List (String × String)} {word : String}
    (h : firstBeginning? assigned word = none) : lastService? assigned word = none := by
  rw [lastService?, Option.map_eq_none_iff, List.find?_eq_none]
  intro entry hentry hsame
  have hnot := List.find?_eq_none.mp h entry.1
    (List.mem_map_of_mem (List.mem_reverse.mp hentry))
  rw [beq_iff_eq.mp hsame, List.isPrefixOf_iff_prefix] at hnot
  exact hnot (List.prefix_refl _)

/-- The leading word decides if no other variable that begins it is bound first. -/
theorem IsTarget.isOwnTarget {assigned : List (String × String)} {address : List Char}
    {target : String} (h : IsTarget assigned address target)
    (hfirst : ∀ name, firstBeginning? assigned (leadingWord address) = some name →
      name = leadingWord address) : IsOwnTarget assigned address target := by
  cases h with
  | bound hname hlast =>
    obtain rfl := hfirst _ hname
    constructor
    · intro service hservice
      exact Option.some.inj (hlast.symm.trans hservice)
    · intro hnone
      rw [hnone] at hlast
      cases hlast
  | requested hnone hrequest =>
    constructor
    · intro service hservice
      rw [lastService?_of_firstBeginning? hnone] at hservice
      cases hservice
    · exact fun _ => hrequest

theorem forall₂_isTarget (service fileName : String) (source : List Char) :
    List.Forall₂
      (fun (call : Found ClientCall) (site : CallSite) =>
        IsTarget (assignments source) call.value.address site.target)
      ((scan clientCall source).filter (·.value.isReported (bindings source)))
      (callSites service fileName source) := by
  have hsite : ∀ call site, siteOf? service fileName source call = some site →
      IsTarget (assignments source) call.value.address site.target := by
    intro call site hsite
    exact isTarget_of_resolve? (isSiteOf_of_siteOf? hsite).target
  rw [callSites_eq]
  simpa only [isSome_siteOf?] using forall₂_filterMap hsite (scan clientCall source)

end Targets

/-- Each reported call goes to the service that a variable is bound to last: of all variables whose
names begin the leading word of the address expression, the one that is bound first. Without such a
variable the expression asks for the service itself. So the leading word decides on its own unless
another one of those variables is bound first. -/
theorem targets_follow_first_variable (service fileName : String) (source : List Char) :
    List.Forall₂
      (fun (call : Found ClientCall) (site : CallSite) =>
        IsTarget (assignments source) call.value.address site.target ∧
        ((∀ name, firstBeginning? (assignments source) (leadingWord call.value.address) = some name →
            name = leadingWord call.value.address) →
          IsOwnTarget (assignments source) call.value.address site.target))
      ((scan clientCall source).filter (·.value.isReported (bindings source)))
      (callSites service fileName source) := by
  refine (forall₂_isTarget service fileName source).imp ?_
  intro call site htarget
  exact ⟨htarget, htarget.isOwnTarget⟩

section Sources

/-- In a source with a single call, what relates calls to call sites relates that call to its site. -/
theorem exists_call_of_forall₂ {R : Found ClientCall → CallSite → Prop} {p : Found ClientCall → Bool}
    {source address : List Char} {site : CallSite}
    (haddress : (scan clientCall source).map (·.value.address) = [address])
    (h : List.Forall₂ R ((scan clientCall source).filter p) [site]) :
    ∃ call ∈ scan clientCall source, call.value.address = address ∧ R call site := by
  obtain ⟨call, _, hcall, _, hreported⟩ := List.forall₂_cons_right_iff.mp h
  have hmem : call ∈ scan clientCall source := by
    apply List.mem_of_mem_filter (p := p)
    rw [hreported]
    exact List.mem_cons_self
  have hsame : call.value.address ∈ (scan clientCall source).map (·.value.address) :=
    List.mem_map_of_mem hmem
  rw [haddress] at hsame
  exact ⟨call, hmem, List.mem_singleton.mp hsame, hcall⟩

/-- A variable that is bound twice, and in between another one whose name begins it. -/
def reboundSource : List Char :=
  ("url = getServiceUrl(\"a\"); u = getServiceUrl(\"b\"); url = getServiceUrl(\"c\"); " ++
    "restTemplate.put(url + \"/x\", 1);").toList

/-- The variable is bound before the other one, so its own last binding decides. -/
theorem targets_follow_first_variable_rebound :
    assignments reboundSource = [("url", "a"), ("u", "b"), ("url", "c")] ∧
      callSites "web" "Boot.java" reboundSource = [⟨"web", "Boot.unknown", "c", "/x", .put⟩] ∧
      firstBeginning? (assignments reboundSource) "url" = some "url" ∧
      ∃ call ∈ scan clientCall reboundSource, leadingWord call.value.address = "url" ∧
        IsOwnTarget (assignments reboundSource) call.value.address "c" := by
  have hassigned : assignments reboundSource = [("url", "a"), ("u", "b"), ("url", "c")] := by
    decide +kernel
  have hsites : callSites "web" "Boot.java" reboundSource =
      [⟨"web", "Boot.unknown", "c", "/x", .put⟩] := by decide +kernel
  have haddress : (scan clientCall reboundSource).map (·.value.address) =
      ["url + \"/x\"".toList] := by decide +kernel
  have hword : leadingWord "url + \"/x\"".toList = "url" := by decide +kernel
  have hfirst : firstBeginning? (assignments reboundSource) "url" = some "url" := by
    rw [hassigned]
    decide
  have htargets := targets_follow_first_variable "web" "Boot.java" reboundSource
  rw [hsites] at htargets
  obtain ⟨call, hcall, hexpression, -, hown⟩ := exists_call_of_forall₂ haddress htargets
  rw [hexpression, hword] at hown
  refine ⟨hassigned, hsites, hfirst, call, hcall, by rw [hexpression, hword], ?_⟩
  rw [hexpression]
  apply hown
  intro name hname
  rw [hfirst] at hname
  exact (Option.some.inj hname).symm

/-- Two variables of which the first begins the name of the second. -/
def shadowedSource : List Char :=
  ("u = getServiceUrl(\"a\"); url = getServiceUrl(\"b\"); " ++
    "restTemplate.put(url + \"/x\", 1);").toList

/-- The call goes to the service of the first variable, although its expression begins with the
second. -/
theorem own_variable_passed_over :
    ¬ List.Forall₂
      (fun (call : Found ClientCall) (site : CallSite) =>
        IsOwnTarget (assignments shadowedSource) call.value.address site.target)
      ((scan clientCall shadowedSource).filter (·.value.isReported (bindings shadowedSource)))
      (callSites "web" "Boot.java" shadowedSource) := by
  intro htargets
  have hsites : callSites "web" "Boot.java" shadowedSource =
      [⟨"web", "Boot.unknown", "a", "/x", .put⟩] := by decide +kernel
  have haddress : (scan clientCall shadowedSource).map (·.value.address) =
      ["url + \"/x\"".toList] := by decide +kernel
  have hbound : lastService? (assignments shadowedSource) (leadingWord "url + \"/x\"".toList) =
      some "b" := by decide +kernel
  rw [hsites] at htargets
  obtain ⟨call, -, hexpression, hown⟩ := exists_call_of_forall₂ haddress htargets
  rw [hexpression] at hown
  exact absurd (hown.bound "b" hbound) (by decide)

end Sources

end ServiceChains.Source
