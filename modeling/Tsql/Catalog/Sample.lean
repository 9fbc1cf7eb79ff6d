import Tsql.Catalog.Basic

/-!
A small catalog to try completion on: employees, departments, orders and customers, a second table
of employees in the schema `hr`, a function that gives a table, and a table that exists in the
database `Archive` only.
-/

namespace Tsql.Catalog

def sampleColumn (name dataType : String) : ColumnDescriptor :=
  { name := name, dataType := some dataType }

def sampleKey (name : String) : ColumnDescriptor :=
  { name := name, dataType := some "int", nullable := some false, isPrimaryKey := true }

def sample : Catalog where
  entries :=
    [(none,
      { schema := some "dbo", name := "Employees"
        columns :=
          [sampleKey "EmployeeID", sampleColumn "FirstName" "nvarchar(50)",
           sampleColumn "LastName" "nvarchar(50)", sampleColumn "DepartmentID" "int",
           sampleColumn "ManagerID" "int", sampleColumn "HireDate" "date",
           sampleColumn "Salary" "decimal(10,2)", sampleColumn "IsActive" "bit"] }),
     (none,
      { schema := some "dbo", name := "Departments"
        columns :=
          [sampleKey "DepartmentID", sampleColumn "DepartmentName" "nvarchar(100)",
           sampleColumn "Budget" "money"] }),
     (none,
      { schema := some "dbo", name := "Orders"
        columns :=
          [sampleKey "OrderID", sampleColumn "CustomerID" "int",
           sampleColumn "OrderDate" "datetime", sampleColumn "TotalAmount" "money",
           sampleColumn "Status" "varchar(20)"] }),
     (none,
      { schema := some "dbo", name := "Customers"
        columns :=
          [sampleKey "CustomerID", sampleColumn "CustomerName" "nvarchar(100)",
           sampleColumn "Email" "varchar(255)", sampleColumn "CreatedAt" "datetime2"] }),
     (none,
      { schema := some "hr", name := "Employees"
        columns :=
          [sampleColumn "BadgeNumber" "char(8)", sampleColumn "ClearanceLevel" "tinyint"] }),
     (none,
      { schema := some "dbo", name := "fn_OrdersSince", kind := .tableValuedFunction
        columns := [sampleColumn "OrderID" "int", sampleColumn "OrderDate" "datetime"] }),
     (some "Archive",
      { schema := some "dbo", name := "OrdersHistory"
        columns := [sampleColumn "OrderID" "int", sampleColumn "ArchivedAt" "datetime2"] })]

end Tsql.Catalog
