import DpiEngine.Library.JsonReading
import DpiEngine.Report.Model

/-! # The report as a document

The pieces of the report are the printed value, so the report is a JSON document
of it as long as no name needs an escape. A name that does is not read back.
-/

namespace DpiEngine

open JsonText

variable {r : ReportSource}

/-! ### The pieces and the value -/

theorem ascii_comma : ascii "," = [0x2C] := by simp [ascii]

theorem ascii_newline : ascii "\n" = [0x0A] := by simp [ascii]

theorem inQuotes_eq (text : List UInt8) : inQuotes text = quoted text := by
  have hquote : ascii "\"" = [0x22] := by simp [ascii]
  rw [inQuotes, hquote]
  rfl

theorem fieldLine_eq (indent : ℕ) (name : String) (value lineEnd : List UInt8) :
    fieldLine indent name value lineEnd =
      blanks indent ++ quoted (ascii name) ++ [0x3A, 0x20] ++ value ++ lineEnd := by
  have hquote : ascii "\"" = [0x22] := by simp [ascii]
  have hcolon : ascii "\": " = [0x22, 0x3A, 0x20] := by simp [ascii]
  simp [fieldLine, quoted, hquote, hcolon]

theorem textLine_eq (indent : ℕ) (name : String) (text lineEnd : List UInt8) :
    textLine indent name text lineEnd =
      blanks indent ++ quoted (ascii name) ++ [0x3A, 0x20] ++ quoted text ++ lineEnd := by
  rw [textLine, fieldLine_eq, inQuotes_eq]

theorem more_eq : more = [0x2C, 0x0A] := by simp [more, ascii]

theorem last_eq : last = [0x0A] := by simp [last, ascii]

theorem loopPieces_eq {α : Type} {piece : α → List UInt8} {value : α → Json} {indent : ℕ}
    (h : ∀ a, piece a = blanks indent ++ print indent (value a)) (l : List α) :
    loopPieces piece l = printItems indent (l.map value) := by
  have hempty : ascii "" = [] := by simp [ascii]
  have hfrom (k : ℕ) (rest : List α) (hk : k + rest.length = l.length) :
      ((rest.zipIdx k).flatMap fun entry =>
        piece entry.1 ++ (if entry.2 + 1 < l.length then ascii "," else ascii "") ++ ascii "\n") =
      printItems indent (rest.map value) := by
    induction rest generalizing k with
    | nil => rfl
    | cons a rest ih =>
      rw [List.length_cons] at hk
      rw [List.zipIdx_cons, List.flatMap_cons, ih (k + 1) (by omega), List.map_cons, printItems]
      congr 1
      simp only [h, ascii_comma, ascii_newline, hempty]
      cases rest with
      | nil =>
        rw [List.length_nil] at hk
        rw [if_neg (by omega), List.append_nil]
        rfl
      | cons b rest =>
        rw [List.length_cons] at hk
        rw [if_pos (by omega), List.append_assoc]
        rfl
  exact hfrom 0 l (Nat.zero_add _)

theorem ascii_closeField : ascii "  \x7d,\n" = blanks 2 ++ [0x7D, 0x2C, 0x0A] := by
  simp [ascii, blanks, List.replicate]

theorem summaryPiece_eq (r : ReportSource) : summaryPiece r =
    blanks 2 ++ quoted (ascii "summary") ++ [0x3A, 0x20] ++ print 2 (summaryValue r) ++
      [0x2C, 0x0A] := by
  have hopen : ascii "  \"summary\": \x7b\n" =
      blanks 2 ++ quoted (ascii "summary") ++ [0x3A, 0x20, 0x7B, 0x0A] := by
    simp [ascii, blanks, quoted, List.replicate]
  simp only [summaryPiece, summaryValue, hopen, ascii_closeField, fieldLine_eq, more_eq, last_eq,
    print, printMembers, lineEnd]
  simp

theorem protocolsPiece_eq (r : ReportSource) : protocolsPiece r =
    blanks 2 ++ quoted (ascii "protocols") ++ [0x3A, 0x20] ++ print 2 (protocolsValue r) ++
      [0x2C, 0x0A] := by
  have hopen : ascii "  \"protocols\": \x7b\n" =
      blanks 2 ++ quoted (ascii "protocols") ++ [0x3A, 0x20, 0x7B, 0x0A] := by
    simp [ascii, blanks, quoted, List.replicate]
  simp only [protocolsPiece, protocolsValue, hopen, ascii_closeField, fieldLine_eq, more_eq,
    last_eq, print, printMembers, lineEnd]
  simp

section Items

theorem ascii_openItem : ascii "    \x7b\n" = blanks 4 ++ [0x7B, 0x0A] := by
  simp [ascii, blanks, List.replicate]

theorem ascii_closeItem : ascii "    \x7d" = blanks 4 ++ [0x7D] := by
  simp [ascii, blanks, List.replicate]

theorem appPiece_eq (pair : Sigma fun _ : Name => AppSummary) :
    appPiece pair = blanks 4 ++ print 4 (appValue pair) := by
  simp only [appPiece, appValue, ascii_openItem, ascii_closeItem, fieldLine_eq, textLine_eq,
    more_eq, last_eq, print, printMembers, lineEnd]
  simp

theorem domainPiece_eq (pair : Sigma fun _ : Name => DomainSummary) :
    domainPiece pair = blanks 4 ++ print 4 (domainValue pair) := by
  simp only [domainPiece, domainValue, ascii_openItem, ascii_closeItem, fieldLine_eq, textLine_eq,
    more_eq, last_eq, print, printMembers, lineEnd]
  simp

theorem flowPiece_eq (conn : Connection) :
    flowPiece conn = blanks 4 ++ print 4 (flowValue conn) := by
  simp only [flowPiece, flowValue, ascii_openItem, ascii_closeItem, fieldLine_eq, textLine_eq,
    more_eq, last_eq, print, printMembers, lineEnd]
  simp

end Items

/-- The report is the printed value. -/
theorem generateJSONReport_eq (r : ReportSource) :
    generateJSONReport r = print 0 (reportValue r) ++ [0x0A] := by
  have hopen : ascii "\x7b\n" = [0x7B, 0x0A] := by simp [ascii]
  have hclose : ascii "\x7d\n" = [0x7D, 0x0A] := by simp [ascii]
  have happs : ascii "  \"applications\": [\n" =
      blanks 2 ++ quoted (ascii "applications") ++ [0x3A, 0x20, 0x5B, 0x0A] := by
    simp [ascii, blanks, quoted, List.replicate]
  have hdomains : ascii "  \"domains\": [\n" =
      blanks 2 ++ quoted (ascii "domains") ++ [0x3A, 0x20, 0x5B, 0x0A] := by
    simp [ascii, blanks, quoted, List.replicate]
  have hflows : ascii "  \"flows\": [\n" =
      blanks 2 ++ quoted (ascii "flows") ++ [0x3A, 0x20, 0x5B, 0x0A] := by
    simp [ascii, blanks, quoted, List.replicate]
  have hmore : ascii "  ],\n" = blanks 2 ++ [0x5D, 0x2C, 0x0A] := by
    simp [ascii, blanks, List.replicate]
  have hlast : ascii "  ]\n" = blanks 2 ++ [0x5D, 0x0A] := by
    simp [ascii, blanks, List.replicate]
  rw [generateJSONReport, hopen, hclose, happs, hdomains, hflows, hmore, hlast, summaryPiece_eq,
    protocolsPiece_eq, loopPieces_eq appPiece_eq, loopPieces_eq domainPiece_eq,
    loopPieces_eq flowPiece_eq]
  simp only [reportValue, print, printMembers, lineEnd]
  simp [blanks]

/-! ### Names that need no escape -/

def Written (s : String) : Prop := ∀ c ∈ s.toList, Unescaped c ∧ c.toNat < 0x80

instance (c : Char) : Decidable (Unescaped c) := inferInstanceAs (Decidable (_ ∧ _))

instance (s : String) : Decidable (Written s) :=
  List.decidableBAll (fun c => Unescaped c ∧ c.toNat < 0x80) s.toList

theorem Written.plain {s : String} (h : Written s) : Plain (ascii s) := plain_map h

theorem Written.append {s t : String} (hs : Written s) (ht : Written t) : Written (s ++ t) := by
  rintro c hc
  rw [String.toList_append] at hc
  rcases List.mem_append.mp hc with h | h
  · exact hs c h
  · exact ht c h

theorem written_digitChar {d : ℕ} (hd : d < 16) :
    Unescaped d.digitChar ∧ d.digitChar.toNat < 0x80 := by
  revert d
  decide

theorem written_repr (n : ℕ) : Written n.repr := by
  rintro c hc
  rw [Nat.toList_repr] at hc
  obtain ⟨d, hd, rfl⟩ := Digits.exists_digitChar (by decide) hc
  exact written_digitChar (by omega)

theorem written_printGroups {g : List UInt16} {bestStart : Option ℕ} {bestLen fuel i : ℕ}
    {prevCollapsed : Bool} {c : Char}
    (h : c ∈ printGroups g bestStart bestLen fuel i prevCollapsed) :
    Unescaped c ∧ c.toNat < 0x80 := by
  have hcolon : Unescaped ':' ∧ ':'.toNat < 0x80 := by decide
  induction fuel generalizing i prevCollapsed with
  | zero => cases h
  | succ fuel ih =>
    rw [printGroups] at h
    split at h
    · cases h
    · split_ifs at h
      · simp only [List.mem_cons] at h
        rcases h with rfl | rfl | h
        · exact hcolon
        · exact hcolon
        · exact ih h
      · simp only [List.append_assoc, List.mem_append] at h
        rcases h with h | h | h
        · rw [List.mem_singleton.mp h]
          exact hcolon
        · obtain ⟨d, hd, rfl⟩ := Digits.exists_digitChar (by decide) h
          exact written_digitChar hd
        · exact ih h
      · rcases List.mem_append.mp h with h | h
        · obtain ⟨d, hd, rfl⟩ := Digits.exists_digitChar (by decide) h
          exact written_digitChar hd
        · exact ih h

theorem written_address (addr : IPAddress) : Written addr.text := by
  have hdot : Written "." := by decide
  cases addr with
  | v4 s =>
    exact ((((((written_repr _).append hdot).append (written_repr _)).append hdot).append
      (written_repr _)).append hdot).append (written_repr _)
  | v6 addr =>
    rintro c hc
    rw [IPAddress.text, ipv6ToString, String.toList_ofList] at hc
    exact written_printGroups hc

theorem written_flowKey (k : FlowKey) : Written k.toString := by
  have hcolon : Written ":" := by decide
  have hprotocol : Written (if k.protocol = 6 then "TCP" else if k.protocol = 17 then "UDP"
      else if k.protocol = 1 then "ICMP" else if k.protocol = 58 then "ICMPv6" else "?") := by
    split_ifs <;> decide
  have hsrc := ((written_address k.srcAddr).append hcolon).append (written_repr k.srcPort.toNat)
  have hdst := ((hsrc.append (t := " -> ") (by decide)).append (written_address k.dstAddr)).append
    hcolon
  exact (((hdst.append (written_repr k.dstPort.toNat)).append (t := " (") (by decide)).append
    hprotocol).append (t := ")") (by decide)

theorem written_appType (app : AppType) : Written (appTypeToString app) := by
  cases app <;> decide

theorem plain_statusText (blocked : Bool) : Plain (statusText blocked) := by
  apply Written.plain
  cases blocked <;> decide

theorem plain_stateText (state : ConnectionState) : Plain (stateText state) := by
  cases state <;> exact Written.plain (by decide)

theorem plain_actionText (action : PacketAction) : Plain (actionText action) := by
  apply Written.plain
  split_ifs <;> decide

theorem plain_protocolText (protocol : UInt8) : Plain (protocolText protocol) := by
  apply Written.plain
  split_ifs <;> decide

/-! ### The summaries -/

structure Summaries.Names (D : Name → Prop) (s : Summaries) : Prop where
  apps : ∀ e ∈ s.appMap.entries, Plain e.1
  domains : ∀ e ∈ s.domainMap.entries, D e.1 ∧ Plain e.2.app

variable {D : Name → Prop}

theorem Summaries.Names.add {s : Summaries} {conn : Connection} (h : s.Names D)
    (hconn : D conn.bestDomain) : (s.add conn).Names D := by
  have happ := (written_appType conn.appType).plain
  constructor
  · rintro e he
    rw [Summaries.add, AList.entries_insert, List.mem_cons] at he
    rcases he with rfl | he
    · exact happ
    · exact h.apps e ((List.kerase_sublist _ _).mem he)
  · rintro e he
    simp only [Summaries.add] at he
    split_ifs at he
    · exact h.domains e he
    · rw [AList.entries_insert, List.mem_cons] at he
      rcases he with rfl | he
      · exact ⟨hconn, happ⟩
      · exact h.domains e ((List.kerase_sublist _ _).mem he)

theorem names_summarize {conns : List Connection} (h : ∀ conn ∈ conns, D conn.bestDomain) :
    (summarize conns).Names D := by
  have hfold {s : Summaries} (hs : s.Names D) : (conns.foldl Summaries.add s).Names D := by
    induction conns generalizing s with
    | nil => exact hs
    | cons conn conns ih =>
      obtain ⟨hconn, hconns⟩ := List.forall_mem_cons.mp h
      exact ih hconns (hs.add hconn)
  exact hfold ⟨fun e he => absurd he List.not_mem_nil, fun e he => absurd he List.not_mem_nil⟩

/-! ### The strings of the value -/

theorem strings_app (pair : Sigma fun _ : Name => AppSummary) :
    strings (appValue pair) = [pair.1, statusText pair.2.blocked] := rfl

theorem strings_domain (pair : Sigma fun _ : Name => DomainSummary) :
    strings (domainValue pair) = [pair.1, pair.2.app, statusText pair.2.blocked] := rfl

theorem strings_flow (conn : Connection) : strings (flowValue conn) =
    [ascii conn.flowKey.toString, protocolText conn.flowKey.protocol,
      ascii (appTypeToString conn.appType), conn.bestDomain, stateText conn.state,
      actionText conn.action] := rfl

theorem strings_report (r : ReportSource) : strings (reportValue r) =
    stringsOfItems (r.apps.map appValue) ++ (stringsOfItems (r.domains.map domainValue) ++
      stringsOfItems (r.conns.map flowValue)) := by
  simp [reportValue, summaryValue, protocolsValue, strings, stringsOfMembers]

theorem mem_strings_report {s : List UInt8} (h : s ∈ strings (reportValue r)) :
    Plain s ∨ ∃ conn ∈ r.conns, conn.bestDomain = s := by
  have hnames : (summarize r.conns).Names fun d => ∃ conn ∈ r.conns, conn.bestDomain = d :=
    names_summarize fun conn hconn => ⟨conn, hconn, rfl⟩
  simp only [strings_report, List.mem_append, mem_stringsOfItems, List.mem_map] at h
  rcases h with ⟨_, ⟨e, he, rfl⟩, hs⟩ | ⟨_, ⟨e, he, rfl⟩, hs⟩ | ⟨_, ⟨conn, hconn, rfl⟩, hs⟩
  · have hname := hnames.apps e ((r.appOrder.perm _).mem_iff.mp he)
    simp only [strings_app, List.mem_cons, List.not_mem_nil, or_false] at hs
    rcases hs with rfl | rfl
    · exact .inl hname
    · exact .inl (plain_statusText _)
  · obtain ⟨hname, happ⟩ := hnames.domains e ((r.domainOrder.perm _).mem_iff.mp he)
    simp only [strings_domain, List.mem_cons, List.not_mem_nil, or_false] at hs
    rcases hs with rfl | rfl | rfl
    · exact .inr hname
    · exact .inl happ
    · exact .inl (plain_statusText _)
  · simp only [strings_flow, List.mem_cons, List.not_mem_nil, or_false] at hs
    rcases hs with rfl | rfl | rfl | rfl | rfl | rfl
    · exact .inl (written_flowKey _).plain
    · exact .inl (plain_protocolText _)
    · exact .inl (written_appType _).plain
    · exact .inr ⟨conn, hconn, rfl⟩
    · exact .inl (plain_stateText _)
    · exact .inl (plain_actionText _)

/-! ### The shape of the value -/

theorem shaped_summary (r : ReportSource) : Shaped (summaryValue r) := by
  simp (disch := decide) only [summaryValue, Shaped, ShapedMembers, Written.plain,
    isNumber_decimal, NumberText.isNumber, and_self]

theorem shaped_protocols (r : ReportSource) : Shaped (protocolsValue r) := by
  simp (disch := decide) only [protocolsValue, Shaped, ShapedMembers, Written.plain,
    isNumber_decimal, and_self]

theorem shaped_app (pair : Sigma fun _ : Name => AppSummary) : Shaped (appValue pair) := by
  simp (disch := decide) only [appValue, Shaped, ShapedMembers, Written.plain, isNumber_decimal,
    and_self]

theorem shaped_domain (pair : Sigma fun _ : Name => DomainSummary) :
    Shaped (domainValue pair) := by
  simp (disch := decide) only [domainValue, Shaped, ShapedMembers, Written.plain,
    isNumber_decimal, and_self]

theorem shaped_flow (conn : Connection) : Shaped (flowValue conn) := by
  simp (disch := decide) only [flowValue, Shaped, ShapedMembers, Written.plain, isNumber_decimal,
    and_self]

theorem shaped_report (r : ReportSource) : Shaped (reportValue r) := by
  have hitems {α : Type} (value : α → Json) (h : ∀ a, Shaped (value a)) (l : List α) :
      ShapedItems (l.map value) := by
    rw [shapedItems_iff]
    rintro v hv
    obtain ⟨a, -, rfl⟩ := List.mem_map.mp hv
    exact h a
  have happs := hitems appValue shaped_app r.apps
  have hdomains := hitems domainValue shaped_domain r.domains
  have hflows := hitems flowValue shaped_flow r.conns
  simp (disch := decide) only [reportValue, Shaped, ShapedMembers, Written.plain,
    shaped_summary, shaped_protocols, happs, hdomains, hflows, and_self]

/-! ### The document -/

/--
The report is read as a document in which every flow has the best domain of its connection as its
domain.
-/
def ReadsBack (r : ReportSource) : Prop :=
  ∃ v flows, Document (generateJSONReport r) v ∧ HasMember v (ascii "flows") (.array flows) ∧
    List.Forall₂ (fun conn flow => HasMember flow (ascii "domain") (.string conn.bestDomain))
      r.conns flows

theorem readsBack_of_plain (h : ∀ conn ∈ r.conns, Plain conn.bestDomain) : ReadsBack r := by
  have hstrings (s) (hs : s ∈ strings (reportValue r)) : Plain s := by
    rcases mem_strings_report hs with hplain | ⟨conn, hconn, rfl⟩
    · exact hplain
    · exact h conn hconn
  refine ⟨reportValue r, r.conns.map flowValue, ?_, ⟨_, rfl, by simp⟩, ?_⟩
  · rw [generateJSONReport_eq]
    exact document_print (shaped_report r) hstrings
  · rw [List.forall₂_map_right_iff]
    exact List.forall₂_same.mpr fun conn _ => ⟨_, rfl, by simp⟩

theorem exists_of_forall₂ {α β : Type} {R : α → β → Prop} {l : List α} {l' : List β}
    (h : List.Forall₂ R l l') : ∀ a ∈ l, ∃ b ∈ l', R a b := by
  induction h with
  | nil => exact fun _ ha => absurd ha List.not_mem_nil
  | cons hhead _ ih =>
    refine List.forall_mem_cons.mpr ⟨⟨_, List.mem_cons_self, hhead⟩, fun a ha => ?_⟩
    obtain ⟨b, hb, hab⟩ := ih a ha
    exact ⟨b, List.mem_cons_of_mem _ hb, hab⟩

/-- A best domain that needs an escape would have to be written in a longer one. -/
theorem plain_of_readsBack (h : ReadsBack r) : ∀ conn ∈ r.conns, Plain conn.bestDomain := by
  obtain ⟨v, flows, hdoc, hflows, hdomains⟩ := h
  have hread (conn) (hconn : conn ∈ r.conns) : conn.bestDomain ∈ strings v := by
    obtain ⟨flow, hflow, hdomain⟩ := exists_of_forall₂ hdomains conn hconn
    refine hflows.mem_strings (mem_stringsOfItems.mpr ⟨flow, hflow, ?_⟩)
    exact hdomain.mem_strings (List.mem_singleton_self _)
  rw [generateJSONReport_eq] at hdoc
  have hplain : ∀ s ∈ strings (reportValue r), Plain s := by
    refine plain_of_document (shaped_report r) hdoc fun s hs => ?_
    rcases mem_strings_report hs with hplain | ⟨conn, hconn, rfl⟩
    · exact .inl hplain
    · exact .inr (hread conn hconn)
  intro conn hconn
  refine hplain _ ?_
  rw [strings_report]
  refine List.mem_append_right _ (List.mem_append_right _ (mem_stringsOfItems.mpr ?_))
  exact ⟨flowValue conn, List.mem_map_of_mem hconn, by simp [strings_flow]⟩

/-- The report is read back exactly if no best domain needs an escape. -/
theorem generateJSONReport_iff (r : ReportSource) :
    ReadsBack r ↔ ∀ conn ∈ r.conns, Plain conn.bestDomain :=
  ⟨plain_of_readsBack, readsBack_of_plain⟩

def quotingRequest : PacketJob :=
  segmentJob 80 1 TCPFlags.ACK (ascii "GET /\nHost: a\"b\n\n")

/-- The quotation mark ends the string of the flow inside the name. -/
theorem not_generateJSONReport : ∃ fp, FastPathProcessor.Step {} {} (.packet {} quotingRequest) fp ∧
    (fp.tracker.getAllConnections .asStored).map Connection.bestDomain = [ascii "a\"b"] ∧
    ¬ ReadsBack (.ofConns (fp.tracker.getAllConnections .asStored)) ∧
    ∀ r : ReportSource, r.conns = fp.tracker.getAllConnections .asStored → ¬ ReadsBack r := by
  have hdomains : (({} : FastPathProcessor).processPacket {} {} quotingRequest).toOption.map
      (fun fp => (fp.tracker.getAllConnections .asStored).map Connection.bestDomain) =
        some [ascii "a\"b"] := by decide +kernel
  cases hstep : ({} : FastPathProcessor).processPacket {} {} quotingRequest with
  | error fault =>
    rw [hstep] at hdomains
    cases hdomains
  | ok fp =>
    rw [hstep] at hdomains
    have hlist := Option.some.inj hdomains
    have hall (r : ReportSource) (hr : r.conns = fp.tracker.getAllConnections .asStored) :
        ¬ ReadsBack r := by
      intro hread
      obtain ⟨conn, hconn, hdomain⟩ := List.mem_map.mp (hlist ▸ List.mem_singleton_self _)
      have hplain := plain_of_readsBack hread conn (hr ▸ hconn)
      rw [hdomain] at hplain
      have hquote : 0x22 ∈ ascii "a\"b" := by simp [ascii]
      exact (hplain.byte _ hquote).2.1 rfl
    exact ⟨fp, hstep, hlist, hall _ rfl, hall⟩

end DpiEngine
