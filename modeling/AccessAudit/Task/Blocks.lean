import AccessAudit.Task.Question

/-!
# Blocks and countries

The entities that are blocked at present, and the countries of the addresses annotated in a run.
-/

namespace AccessAudit
namespace Task

open Store (Session)

variable {σ : Type}

/-- The blocked entities in ascending order, each annotated.  An entity that is null makes the report fail, and
so does one that is no text. -/
def firewallBlocks : Reporting σ := fun (s, c) =>
  let (tables, s) := s.read
  match tables.getEntities with
  | .error e => (.error (Fault.ofStore e), (s, c))
  | .ok blocks =>
      if blocks.any Option.isNone then
        (.error (Fault.ofStore (.columnType .null 0 "ip_entity")), (s, c))
      else
        let entities := (blocks.filterMap id).mergeSort Store.textLe
        match onlyTexts "ip_entity" entities with
        | .error e => (.error (Fault.ofStore e), (s, c))
        | .ok _ =>
            if entities.isEmpty then (.ok [noMatchingData], (s, c))
            else
              let (text, cache) :=
                annotatedTable [("ip_entity", .left)]
                  (entities.map fun e => (e.toText, [e.toText])) c.cache
              (.ok [text], (s, { c with cache := cache }))

/-- The countries of the addresses remembered so far, with the number of their addresses. -/
def countrySummary : Reporting σ := fun (s, c) =>
  let counts := c.cache.countryCounts
  if counts.isEmpty then (.ok [noMatchingData], (s, c))
  else
    let rows := counts.map fun (country, count) => [country, Decimal.groupedText count]
    (.ok [(tableOf [("org country", .center), ("addresses", .right)] rows).render], (s, c))

end Task
end AccessAudit
