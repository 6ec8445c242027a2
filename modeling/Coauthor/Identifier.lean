/-!
# Identifiers

Projects, commits, clients and documents are named by opaque strings; nothing
depends on their form.
-/

namespace Coauthor

abbrev ProjectId := String

/-- The name of a commit, derived from its content. -/
abbrev CommitHash := String

abbrev ClientId := String

abbrev DocumentId := String

abbrev BranchName := String

end Coauthor
