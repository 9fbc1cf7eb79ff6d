import Tsql.Completion.Mode
import Tsql.Text.Uppercase

/-!
Keywords to offer, by the place they make sense in. Offers are numbered from 1 in the order of their
priority; where one list goes on with another, so do the numbers.
-/

namespace Tsql

structure KeywordOffer where
  label : String
  description : Option String
  /-- Smaller numbers come first. -/
  priority : Int
  deriving DecidableEq, Repr

namespace KeywordOffer

/-- An offer without a description; its label is written in capitals. -/
def plain (label : String) (priority : Int) : KeywordOffer :=
  ⟨Text.upper label, none, priority⟩

/-- Labels and descriptions as offers, in the order of their priority. -/
def numbered (words : List (String × String)) : List KeywordOffer :=
  words.zipIdx.map fun ((label, description), i) => ⟨label, some description, i + 1⟩

/-- The greatest priority number, 0 if there is no offer. -/
def lastPriority : List KeywordOffer → Int
  | [] => 0
  | [k] => k.priority
  | k :: ks => max k.priority (lastPriority ks)

/-- One list of offers behind another. -/
def followedBy (first second : List KeywordOffer) : List KeywordOffer :=
  first ++ second.map fun k => { k with priority := k.priority + lastPriority first }

/-- The offers whose labels are not in the list. -/
def without (labels : List String) (offers : List KeywordOffer) : List KeywordOffer :=
  offers.filter fun k => !labels.contains k.label

/-- Words that open a statement. -/
def statement : List KeywordOffer :=
  numbered
    [("SELECT", "Retrieve data from tables"),
     ("INSERT", "Insert new rows into a table"),
     ("UPDATE", "Modify existing rows in a table"),
     ("DELETE", "Delete rows from a table"),
     ("MERGE", "Insert, update or delete against a source"),
     ("WITH", "Common Table Expression (CTE)"),
     ("CREATE", "Create database objects"),
     ("ALTER", "Modify database objects"),
     ("DROP", "Remove database objects"),
     ("TRUNCATE TABLE", "Remove all rows from a table"),
     ("DECLARE", "Declare a variable"),
     ("SET", "Assign a variable or session option"),
     ("EXEC", "Execute a stored procedure"),
     ("USE", "Change the database context"),
     ("BEGIN TRAN", "Start a transaction"),
     ("GO", "End the batch")]

/-- Words of a query. -/
def select : List KeywordOffer :=
  numbered
    [("TOP", "Limit number of rows"),
     ("DISTINCT", "Remove duplicate rows"),
     ("CASE", "Conditional expression"),
     ("AS", "Alias for columns or tables"),
     ("INTO", "Create a table from the result"),
     ("FROM", "Specify tables to query"),
     ("WHERE", "Filter rows"),
     ("GROUP BY", "Group rows by values"),
     ("HAVING", "Filter groups"),
     ("ORDER BY", "Sort result rows"),
     ("UNION", "Combine result sets"),
     ("UNION ALL", "Combine result sets with duplicates"),
     ("INTERSECT", "Intersection of result sets"),
     ("EXCEPT", "Difference of result sets")]

/-- Words behind a table. -/
def join : List KeywordOffer :=
  numbered
    [("JOIN", "Join with another table"),
     ("INNER JOIN", "Inner join with another table"),
     ("LEFT JOIN", "Left outer join"),
     ("RIGHT JOIN", "Right outer join"),
     ("FULL JOIN", "Full outer join"),
     ("CROSS JOIN", "Cross join"),
     ("CROSS APPLY", "Apply a table expression per row"),
     ("OUTER APPLY", "Apply, keeping rows without matches"),
     ("ON", "Join condition"),
     ("WITH (NOLOCK)", "Table hint")]

/-- Words of expressions. -/
def expression : List KeywordOffer :=
  numbered
    [("AND", "Logical AND"),
     ("OR", "Logical OR"),
     ("NOT", "Logical NOT"),
     ("IN", "Value in list"),
     ("EXISTS", "Subquery exists"),
     ("BETWEEN", "Value between range"),
     ("LIKE", "Pattern matching"),
     ("IS NULL", "Check if value is NULL"),
     ("IS NOT NULL", "Check if value is not NULL"),
     ("CASE", "Conditional expression"),
     ("WHEN", "CASE WHEN condition"),
     ("THEN", "CASE THEN result"),
     ("ELSE", "CASE ELSE default"),
     ("END", "END CASE expression"),
     ("NULL", "NULL value"),
     ("CAST", "Cast to type"),
     ("CONVERT", "Convert to type with style"),
     ("COLLATE", "Apply a collation")]

/-- Kinds of objects to create. -/
def create : List KeywordOffer :=
  numbered
    [("TABLE", "Create table"),
     ("VIEW", "Create view"),
     ("PROCEDURE", "Create procedure"),
     ("FUNCTION", "Create function"),
     ("INDEX", "Create index"),
     ("NONCLUSTERED INDEX", "Create nonclustered index"),
     ("TRIGGER", "Create trigger"),
     ("SCHEMA", "Create schema"),
     ("OR ALTER", "Replace if exists")]

/-- Kinds of objects to alter or drop. -/
def object : List KeywordOffer :=
  numbered
    [("TABLE", "Table"),
     ("VIEW", "View"),
     ("PROCEDURE", "Stored procedure"),
     ("FUNCTION", "Function"),
     ("INDEX", "Index"),
     ("TRIGGER", "Trigger"),
     ("IF EXISTS", "Only if the object exists")]

/-- Words of an `INSERT`. -/
def insert : List KeywordOffer :=
  numbered
    [("INTO", "Insert into table"),
     ("VALUES", "Insert values"),
     ("SELECT", "Insert the result of a query"),
     ("OUTPUT", "Return inserted rows"),
     ("DEFAULT VALUES", "Insert a row of defaults")]

/-- Words of an `UPDATE`. -/
def update : List KeywordOffer :=
  numbered
    [("SET", "Set column values"),
     ("OUTPUT", "Return updated rows"),
     ("FROM", "Join other tables into the update"),
     ("WHERE", "Filter rows to update")]

/-- Words of a `DELETE`. -/
def delete : List KeywordOffer :=
  numbered
    [("FROM", "Delete from table"),
     ("OUTPUT", "Return deleted rows"),
     ("WHERE", "Filter rows to delete")]

/-- Words of a `MERGE`. -/
def merge : List KeywordOffer :=
  numbered
    [("USING", "Source of the merge"),
     ("ON", "Match condition"),
     ("WHEN MATCHED THEN", "Action for matching rows"),
     ("WHEN NOT MATCHED THEN", "Action for new source rows"),
     ("WHEN NOT MATCHED BY SOURCE THEN", "Action for target rows without a source row"),
     ("OUTPUT", "Return affected rows")]

/-- Words behind an item of `ORDER BY`. -/
def sortDirection : List KeywordOffer :=
  numbered
    [("ASC", "Ascending order"),
     ("DESC", "Descending order")]

/-- The offers behind a clause, where they do not depend on the statement. -/
def afterClause : Clause → List KeywordOffer
  | .select => select
  | .sources => without ["FROM", "TOP", "DISTINCT", "INTO"] (followedBy join select)
  | .joinCondition => without ["FROM", "TOP", "DISTINCT", "INTO"] (followedBy join select)
  | .filter =>
    numbered
      [("GROUP BY", "Group rows by values"), ("ORDER BY", "Sort result rows"),
       ("OPTION", "Query hints")]
  | .grouping => numbered [("HAVING", "Filter groups"), ("ORDER BY", "Sort result rows")]
  | .groupFilter => numbered [("ORDER BY", "Sort result rows")]
  | .ordering =>
    followedBy sortDirection
      (numbered [("OFFSET", "Skip rows"), ("FETCH NEXT", "Limit rows after OFFSET")])
  | .into => numbered [("FROM", "Specify tables to query"), ("WHERE", "Filter rows")]
  | .mergeSource => merge
  | .mergeAction => merge
  | .setOperation => numbered [("ALL", "Include duplicates"), ("SELECT", "Select statement")]
  | .ctes => numbered [("AS", "CTE body")]
  | _ => []

/-- The offers in a statement of the given kind, outside of clauses that say more. -/
def inStatement : Option StatementKind → List KeywordOffer
  | some .insert => insert
  | some .update => update
  | some .delete => delete
  | some .merge => merge
  | some .createTable => create
  | some .createView => create
  | some .createProcedure => create
  | some .createFunction => create
  | some .alter => object
  | some .drop => object
  | _ => statement

/-- The offers in a mode, given the clause and the statement at the cursor. -/
def inMode (mode : CompletionMode) (clause : Option Clause) (kind : Option StatementKind) :
    List KeywordOffer :=
  let behind := clause.elim [] afterClause
  match mode with
  | .select => followedBy select expression
  | .filter => followedBy expression behind
  | .joinCondition => followedBy expression behind
  | .groupFilter => followedBy expression behind
  | .grouping => behind
  | .ordering => behind
  | .assignments => expression
  | .values => expression
  | .output => expression
  | .keyword => if behind.isEmpty then inStatement kind else behind
  | _ => []

end KeywordOffer

end Tsql
